import Uncworks.Controller.Chain

/-!
# The steps of a ChainRun during a reconcile

What the loops of a reconcile do to the steps: every change is a `StepMove` of one of them, so that
an invariant of the steps is checked for three kinds of moves.
-/

namespace Uncworks

open ChainRunStepStatus List Option

/-! ## Replacing a step -/

section Lookup

variable {steps : List ChainRunStepStatus} {s s' t : ChainRunStepStatus} {n : String} {i : ℕ}
  {d : ChainStep}

theorem split_of_getElem? {α : Type*} {l} {x : α} (h : l[i]? = some x) :
    ∃ pre post, l = pre ++ x :: post ∧ pre.length = i ∧ ∀ y, l.set i y = pre ++ y :: post := by
  obtain ⟨hi, rfl⟩ := List.getElem?_eq_some_iff.1 h
  refine ⟨l.take i, l.drop (i + 1), ?_, by simp; omega, fun y => ?_⟩
  · rw [← drop_eq_getElem_cons hi, take_append_drop]
  · rw [set_eq_take_append_cons_drop, if_pos hi]

theorem stepStatus_middle (pre post : List ChainRunStepStatus) (s : ChainRunStepStatus)
    (n : String) :
    stepStatus (pre ++ s :: post) n =
      ((stepStatus post n).or (if s.name = n then some s else none)).or (stepStatus pre n) := by
  have hs : [s].find? (·.name = n) = if s.name = n then some s else none := by
    by_cases h : s.name = n <;> simp
  rw [stepStatus, reverse_append, reverse_cons, find?_append, find?_append, hs]
  rfl

theorem stepStatus_mem (h : stepStatus steps n = some t) : t ∈ steps ∧ t.name = n := by
  refine ⟨mem_reverse.1 (mem_of_find?_eq_some h), ?_⟩
  simpa using find?_some h

theorem phaseOf_eq_some {phase} (h : phaseOf steps n = some phase) :
    ∃ t ∈ steps, t.name = n ∧ t.phase = phase := by
  obtain ⟨t, ht, hp⟩ := map_eq_some_iff.1 h
  exact ⟨t, (stepStatus_mem ht).1, (stepStatus_mem ht).2, hp⟩

theorem stepStatus_of_mem (hnd : (steps.map name).Nodup) (h : t ∈ steps) :
    stepStatus steps t.name = some t := by
  obtain ⟨u, hu⟩ : ∃ u, stepStatus steps t.name = some u := by
    rw [← isSome_iff_exists, stepStatus, find?_isSome]
    exact ⟨t, mem_reverse.2 h, by simp⟩
  have heq : u = t := inj_on_of_nodup_map hnd (stepStatus_mem hu).1 h (stepStatus_mem hu).2
  rw [hu, heq]

theorem phaseOf_of_mem (hnd : (steps.map name).Nodup) (h : t ∈ steps) :
    phaseOf steps t.name = some t.phase := by
  rw [phaseOf, stepStatus_of_mem hnd h]
  rfl

theorem stepDef_mem {defs} (h : stepDef defs n = some d) : d ∈ defs ∧ d.name = n := by
  refine ⟨mem_reverse.1 (mem_of_find?_eq_some h), ?_⟩
  simpa using find?_some h

theorem stepDef_of_mem {defs} (hnd : (defs.map ChainStep.name).Nodup) (h : d ∈ defs) :
    stepDef defs d.name = some d := by
  obtain ⟨u, hu⟩ : ∃ u, stepDef defs d.name = some u := by
    rw [← isSome_iff_exists, stepDef, find?_isSome]
    exact ⟨d, mem_reverse.2 h, by simp⟩
  have heq : u = d := inj_on_of_nodup_map hnd (stepDef_mem hu).1 h (stepDef_mem hu).2
  rw [hu, heq]

theorem phaseOf_set_succeeded (h : steps[i]? = some s) (hn : s'.name = s.name)
    (hs : s.phase ≠ .succeeded) (hs' : s'.phase ≠ .succeeded) (n : String) :
    phaseOf (steps.set i s') n = some .succeeded ↔ phaseOf steps n = some .succeeded := by
  obtain ⟨pre, post, rfl, -, hset⟩ := split_of_getElem? h
  rw [hset, phaseOf, phaseOf, stepStatus_middle, stepStatus_middle, hn]
  cases stepStatus post n with
  | some u => rfl
  | none =>
    by_cases hns : s.name = n
    · simp [hns, hs, hs']
    · simp [hns]

theorem allDepsOK_set (h : steps[i]? = some s) (hn : s'.name = s.name)
    (hs : s.phase ≠ .succeeded) (hs' : s'.phase ≠ .succeeded) (d : ChainStep) :
    allDepsOK (steps.set i s') d = allDepsOK steps d := by
  unfold allDepsOK
  congr 1
  funext dep
  exact decide_eq_decide.2 (phaseOf_set_succeeded h hn hs hs' dep)

theorem allDepsOK_iff :
    allDepsOK steps d ↔ ∀ dep ∈ d.dependsOn, phaseOf steps dep = some .succeeded := by
  simp [allDepsOK]

end Lookup

/-! ## Loops over the steps -/

namespace ChainPass

variable {p q : ChainPass} {body : ℕ → ChainRunStepStatus → ChainPass → ChainPass}

theorem foldl_steps_rule {P : ℕ → ChainPass → Prop} {f}
    (hf : ∀ q k s, q.steps[k]? = some s → f q k = body k s q)
    (hlen : ∀ i s q, (body i s q).steps.length = q.steps.length) (h0 : P 0 p)
    (hstep : ∀ k q s, q.steps[k]? = some s → P k q → P (k + 1) (body k s q)) (k : ℕ)
    (hk : k ≤ p.steps.length) :
    P k ((range k).foldl f p) ∧ ((range k).foldl f p).steps.length = p.steps.length := by
  induction k with
  | zero => exact ⟨h0, rfl⟩
  | succ k ih =>
    obtain ⟨hP, hl⟩ := ih (by omega)
    rw [range_succ, foldl_append, foldl_cons]
    generalize (range k).foldl f p = q at hP hl
    have hs : q.steps[k]? = some (q.steps.get ⟨k, by omega⟩) := getElem?_eq_getElem (by omega)
    rw [hf q k _ hs]
    exact ⟨hstep k q _ hs hP, (hlen k _ q).trans hl⟩

theorem forSteps_rule {P : ℕ → ChainPass → Prop}
    (hlen : ∀ i s q, (body i s q).steps.length = q.steps.length) (h0 : P 0 p)
    (hstep : ∀ k q s, q.steps[k]? = some s → P k q → P (k + 1) (body k s q)) :
    P p.steps.length (p.forSteps body) ∧ (p.forSteps body).steps.length = p.steps.length :=
  foldl_steps_rule (fun q k s hs => by simp [hs]) hlen h0 hstep _ le_rfl

end ChainPass

/-! ## Moves -/

/-- What a reconcile may do to a step, given the chain and the status of all steps. -/
inductive StepMove (defs : List ChainStep) (steps : List ChainRunStepStatus)
    (s s' : ChainRunStepStatus) : Prop
  | sync (hp : s.phase = .running) (hid : s'.runID = s.runID)
      (hp' : s'.phase = .succeeded ∨ s'.phase = .failed)
  | start (d : ChainStep) (hp : s.phase = .pending) (hd : stepDef defs s.name = some d)
      (hok : allDepsOK steps d) (hp' : s'.phase = .running ∧ s'.runID ≠ "" ∨ s'.phase = .failed)
  | skip (d : ChainStep) (dep : String) (hp : s.phase = .pending)
      (hd : stepDef defs s.name = some d) (hdep : dep ∈ d.dependsOn)
      (hblock : phaseOf steps dep = some .failed ∨ phaseOf steps dep = some .skipped)
      (hp' : s'.phase = .skipped)

def Move (defs : List ChainStep) (steps steps' : List ChainRunStepStatus) : Prop :=
  ∃ i s s', steps[i]? = some s ∧ s'.name = s.name ∧ StepMove defs steps s s' ∧
    steps' = steps.set i s'

def Moves (defs : List ChainStep) : List ChainRunStepStatus → List ChainRunStepStatus → Prop :=
  Relation.ReflTransGen (Move defs)

section Moves

variable {lib : Go.Lib} {cr : ChainRun} {defs : List ChainStep} {calls : ChainCalls} {i : ℕ}
  {steps steps' : List ChainRunStepStatus} {s s' : ChainRunStepStatus} {child : Option ChildRun}
  {t : ChainRunStepStatus} {d : ChainStep}

theorem StepMove.live (h : StepMove defs steps s s') : s.phase = .pending ∨ s.phase = .running := by
  cases h with
  | sync hp hid hp' => exact .inr hp
  | start d hp hd hok hp' | skip d dep hp hd hdep hblock hp' => exact .inl hp

theorem StepMove.ne_pending (h : StepMove defs steps s s') : s'.phase ≠ .pending := by
  cases h with
  | sync hp hid hp' => rcases hp' with h | h <;> simp [h]
  | start d hp hd hok hp' => rcases hp' with ⟨h, -⟩ | h <;> simp [h]
  | skip d dep hp hd hdep hblock hp' => simp [hp']

theorem Move.names (h : Move defs steps steps') : steps'.map name = steps.map name := by
  obtain ⟨i, s, s', hs, hn, -, rfl⟩ := h
  obtain ⟨pre, post, rfl, -, hset⟩ := split_of_getElem? hs
  rw [hset]
  simp [hn]

theorem Moves.names (h : Moves defs steps steps') : steps'.map name = steps.map name := by
  induction h with
  | refl => rfl
  | tail _ hm ih => exact hm.names.trans ih

theorem Move.mem_of_done (h : Move defs steps steps') (ht : t ∈ steps)
    (hp : t.phase ≠ .pending) (hr : t.phase ≠ .running) : t ∈ steps' := by
  obtain ⟨i, s, s', hs, -, hmove, rfl⟩ := h
  obtain ⟨pre, post, rfl, -, hset⟩ := split_of_getElem? hs
  rw [hset]
  rcases mem_append.1 ht with ht | ht
  · exact mem_append_left _ ht
  · rcases mem_cons.1 ht with rfl | ht
    · rcases hmove.live with h | h
      · exact absurd h hp
      · exact absurd h hr
    · exact mem_append_right _ (mem_cons_of_mem _ ht)

theorem Moves.mem_of_done (h : Moves defs steps steps') (ht : t ∈ steps)
    (hp : t.phase ≠ .pending) (hr : t.phase ≠ .running) : t ∈ steps' := by
  induction h with
  | refl => exact ht
  | tail _ hm ih => exact hm.mem_of_done ih hp hr

theorem Moves.mem_of_pending (h : Moves defs steps steps') (ht : t ∈ steps')
    (hp : t.phase = .pending) : t ∈ steps := by
  induction h with
  | refl => exact ht
  | tail _ hm ih =>
    obtain ⟨i, s, s', hs, -, hmove, rfl⟩ := hm
    apply ih
    rcases mem_or_eq_of_mem_set ht with ht | rfl
    · exact ht
    · exact absurd hp hmove.ne_pending

theorem Moves.exists_ne_pending {n} (h : Moves defs steps steps')
    (hn : ∃ t ∈ steps, t.name = n ∧ t.phase ≠ .pending) :
    ∃ t ∈ steps', t.name = n ∧ t.phase ≠ .pending := by
  induction h with
  | refl => exact hn
  | tail _ hm ih =>
    obtain ⟨t, ht, rfl, hp⟩ := ih
    obtain ⟨i, s, s', hs, hname, hmove, rfl⟩ := hm
    obtain ⟨pre, post, rfl, -, hset⟩ := split_of_getElem? hs
    rw [hset]
    rcases mem_append.1 ht with ht | ht
    · exact ⟨t, mem_append_left _ ht, rfl, hp⟩
    · rcases mem_cons.1 ht with rfl | ht
      · exact ⟨s', by simp, hname, hmove.ne_pending⟩
      · exact ⟨t, mem_append_right _ (mem_cons_of_mem _ ht), rfl, hp⟩

/-! ## The bodies of the loops -/

theorem syncStep_some {reply} (h : syncStep reply s = some s') :
    s.phase = .running ∧ s'.runID = s.runID ∧ (s'.phase = .succeeded ∨ s'.phase = .failed) ∧
      s'.name = s.name := by
  unfold syncStep at h
  split at h
  · cases h
  · rename_i hrun
    have hp : s.phase = .running := by
      by_contra hne
      exact hrun (.inl hne)
    split at h
    · cases h
    · split at h <;> cases h
      · exact ⟨hp, rfl, .inl rfl, rfl⟩
      all_goals exact ⟨hp, rfl, .inr rfl, rfl⟩

theorem createStep_fst (cr : ChainRun) (steps' : List ChainRunStepStatus) (d : ChainStep)
    (tmpl : RunTemplateSpec) :
    (createStep cr calls i steps s d tmpl).1 = (createStep cr calls i steps' s d tmpl).1 := by
  unfold createStep
  cases calls.create i <;> rfl

def Ready (defs : List ChainStep) (steps : List ChainRunStepStatus) (s : ChainRunStepStatus)
    (d : ChainStep) : Prop :=
  s.phase = .pending ∧ stepDef defs s.name = some d ∧ allDepsOK steps d

theorem startStep_template_error (h : Ready defs steps s d) {e} (ht : calls.template i = .error e) :
    startStep lib cr defs calls i steps s = some ({ s with
      phase := .failed, message := s!"template {lib.quote d.templateRef} not found" }, none) := by
  obtain ⟨hp, hd, hok⟩ := h
  simp [startStep, hp, hd, hok, ht]

theorem startStep_template_ok (h : Ready defs steps s d) {tmpl} (ht : calls.template i = .ok tmpl) :
    startStep lib cr defs calls i steps s = some (createStep cr calls i steps s d tmpl) := by
  obtain ⟨hp, hd, hok⟩ := h
  simp [startStep, hp, hd, hok, ht]

theorem ready_of_startStep (h : (startStep lib cr defs calls i steps s).isSome) :
    ∃ d, Ready defs steps s d := by
  unfold startStep at h
  by_cases hp : s.phase = .pending
  · cases hd : stepDef defs s.name with
    | none => simp [hd] at h
    | some d =>
      by_cases hok : allDepsOK steps d
      · exact ⟨d, hp, hd, hok⟩
      · simp [hd, hok] at h
  · simp [hp] at h

theorem startStep_eq_none (h : ¬ ∃ d, Ready defs steps s d) :
    startStep lib cr defs calls i steps s = none := by
  rw [← not_isSome_iff_eq_none]
  exact fun hs => h (ready_of_startStep hs)

theorem startStep_cases (h : startStep lib cr defs calls i steps s = some (s', child)) :
    ∃ d, Ready defs steps s d ∧ s'.name = s.name ∧
      (s'.phase = .failed ∧ s'.runID = s.runID ∧ child = none ∨
        ∃ tmpl suffix, calls.template i = .ok tmpl ∧
          child = some (childRun cr steps (calls.context i) d s.name tmpl suffix) ∧
          (s'.phase = .running ∧ s'.runID = "ar-" ++ suffix ∨
            s'.phase = .failed ∧ s'.runID = s.runID)) := by
  obtain ⟨d, hr⟩ := ready_of_startStep (isSome_of_eq_some h)
  refine ⟨d, hr, ?_⟩
  cases htmpl : calls.template i with
  | error e =>
    rw [startStep_template_error hr htmpl] at h
    cases h
    exact ⟨rfl, .inl ⟨rfl, rfl, rfl⟩⟩
  | ok tmpl =>
    rw [startStep_template_ok hr htmpl] at h
    have hcreate := some.inj h
    unfold createStep at hcreate
    cases hc : calls.create i with
    | created suffix =>
      rw [hc] at hcreate
      cases hcreate
      exact ⟨rfl, .inr ⟨tmpl, suffix, rfl, rfl, .inl ⟨rfl, rfl⟩⟩⟩
    | refused e =>
      rw [hc] at hcreate
      cases hcreate
      exact ⟨rfl, .inl ⟨rfl, rfl, rfl⟩⟩
    | lost suffix e =>
      rw [hc] at hcreate
      cases hcreate
      exact ⟨rfl, .inr ⟨tmpl, suffix, rfl, rfl, .inr ⟨rfl, rfl⟩⟩⟩

theorem startStep_move (h : startStep lib cr defs calls i steps s = some (s', child)) :
    StepMove defs steps s s' ∧ s'.name = s.name := by
  obtain ⟨d, ⟨hp, hd, hok⟩, hn, hcases⟩ := startStep_cases h
  refine ⟨.start d hp hd hok ?_, hn⟩
  rcases hcases with ⟨hf, -⟩ | ⟨tmpl, suffix, -, -, ⟨hrun, hid⟩ | ⟨hf, -⟩⟩
  · exact .inr hf
  · exact .inl ⟨hrun, by simp [hid]⟩
  · exact .inr hf

theorem skipStep_some (h : skipStep lib defs steps s = some s') :
    StepMove defs steps s s' ∧ s'.name = s.name ∧ s'.runID = s.runID ∧ s.phase = .pending ∧
      s'.phase = .skipped := by
  unfold skipStep at h
  split at h
  · cases h
  · rename_i hne
    have hp := not_not.1 hne
    split at h
    · cases h
    · rename_i d hd
      split at h
      · cases h
      · rename_i dep phase hblock
        cases h
        refine ⟨?_, rfl, rfl, hp, rfl⟩
        obtain ⟨dep', hdep, hphase⟩ := exists_of_findSome?_eq_some hblock
        split at hphase <;> cases hphase
        · exact .skip d dep hp hd hdep (.inl ‹_›) rfl
        · exact .skip d dep hp hd hdep (.inr ‹_›) rfl

/-- A step that is not skipped although it is pending has no dependency that failed or was
skipped. -/
theorem phaseOf_of_skipStep_none {dep} (h : skipStep lib defs steps s = none)
    (hp : s.phase = .pending) (hd : stepDef defs s.name = some d) (hdep : dep ∈ d.dependsOn) :
    phaseOf steps dep ≠ some .failed ∧ phaseOf steps dep ≠ some .skipped := by
  have hnone : blockingDep? steps d = none := by
    cases hblock : blockingDep? steps d with
    | none => rfl
    | some b => simp [skipStep, hp, hd, hblock] at h
  have hphase := findSome?_eq_none_iff.1 hnone dep hdep
  constructor <;> intro heq <;> simp [heq] at hphase

end Moves

/-! ## The loops -/

namespace ChainPass

variable {lib : Go.Lib} {cr : ChainRun} {defs : List ChainStep} {calls : ChainCalls} {i : ℕ}
  {p : ChainPass} {s : ChainRunStepStatus} {steps : List ChainRunStepStatus}
  {s' : ChainRunStepStatus}

@[simp] theorem set_steps (p : ChainPass) (i : ℕ) (s : ChainRunStepStatus) :
    (p.set i s).steps = p.steps.set i s := rfl

theorem forSteps_keeps {body} {P : ChainPass → Prop}
    (hlen : ∀ i s q, (body i s q).steps.length = q.steps.length) (h0 : P p)
    (hstep : ∀ i q s, q.steps[i]? = some s → P q → P (body i s q)) : P (p.forSteps body) :=
  (forSteps_rule (P := fun _ q => P q) hlen h0 hstep).1

/-- The rule for a loop that replaces each step by one that depends on nothing the loop changes. -/
theorem forSteps_getElem? {body}
    (g : ℕ → ChainRunStepStatus → ChainRunStepStatus) {K : ChainPass → Prop}
    (hlen : ∀ i s q, (body i s q).steps.length = q.steps.length) (h0 : K p)
    (hstep : ∀ i q s, q.steps[i]? = some s → K q →
      (body i s q).steps = q.steps.set i (g i s) ∧ K (body i s q)) (i : ℕ) :
    (p.forSteps body).steps[i]? = p.steps[i]?.map (g i) := by
  obtain ⟨⟨-, hbelow, -⟩, hl⟩ := forSteps_rule (p := p)
    (P := fun k q => K q ∧ (∀ j < k, q.steps[j]? = p.steps[j]?.map (g j)) ∧
      ∀ j, k ≤ j → q.steps[j]? = p.steps[j]?)
    hlen ⟨h0, fun j hj => by omega, fun j _ => rfl⟩ (by
      rintro k q s hs ⟨hK, hbelow, habove⟩
      obtain ⟨hset, hK'⟩ := hstep k q s hs hK
      have hlt := (List.getElem?_eq_some_iff.1 hs).1
      refine ⟨hK', fun j hj => ?_, fun j hj => ?_⟩
      · rw [hset]
        by_cases hjk : j = k
        · subst hjk
          rw [getElem?_set_self hlt, ← habove j le_rfl, hs]
          rfl
        · rw [getElem?_set_ne (fun h => hjk h.symm)]
          exact hbelow j (by omega)
      · rw [hset, getElem?_set_ne (by omega)]
        exact habove j (by omega))
  by_cases hi : i < p.steps.length
  · exact hbelow i hi
  · rw [getElem?_eq_none (by omega : p.steps.length ≤ i), getElem?_eq_none (by omega)]
    rfl

theorem set_of_getElem? (h : steps[i]? = some s) : steps.set i s = steps := by
  obtain ⟨pre, post, hsplit, -, hset⟩ := split_of_getElem? h
  rw [hset, hsplit]

/-! ### Sync -/

theorem syncAt_steps (h : p.steps[i]? = some s) :
    (p.syncAt calls i s).steps = p.steps.set i ((syncStep (calls.run i) s).getD s) := by
  unfold syncAt
  cases syncStep (calls.run i) s with
  | none => exact (set_of_getElem? h).symm
  | some s' => rfl

theorem syncAt_length (i : ℕ) (s : ChainRunStepStatus) (q : ChainPass) :
    (q.syncAt calls i s).steps.length = q.steps.length := by
  unfold syncAt
  cases syncStep (calls.run i) s <;> simp

theorem sync_moves : Moves defs p.steps (p.sync calls).steps := by
  refine forSteps_keeps (P := fun q => Moves defs p.steps q.steps) syncAt_length .refl ?_
  intro i q s hs hq
  unfold syncAt
  cases hsync : syncStep (calls.run i) s with
  | none => exact hq
  | some s' =>
    obtain ⟨hp, hid, hp', hn⟩ := syncStep_some hsync
    exact hq.tail ⟨i, s, s', hs, hn, .sync hp hid hp', rfl⟩

theorem sync_getElem? (i : ℕ) : (p.sync calls).steps[i]? =
    p.steps[i]?.map fun s => (syncStep (calls.run i) s).getD s :=
  forSteps_getElem? (K := fun _ => True) (fun i s => (syncStep (calls.run i) s).getD s)
    syncAt_length trivial (fun _ _ _ hs _ => ⟨syncAt_steps hs, trivial⟩) i

theorem sync_created : (p.sync calls).created = p.created := by
  refine forSteps_keeps (P := fun q => q.created = p.created) syncAt_length rfl ?_
  intro i q s _ hq
  unfold syncAt
  cases syncStep (calls.run i) s with
  | none | some s' => exact hq

/-! ### Start -/

def started (lib : Go.Lib) (cr : ChainRun) (defs : List ChainStep) (calls : ChainCalls) (i : ℕ)
    (steps : List ChainRunStepStatus) (s : ChainRunStepStatus) : ChainRunStepStatus :=
  ((startStep lib cr defs calls i steps s).map Prod.fst).getD s

theorem started_pending
    (h : (started lib cr defs calls i steps s).phase = .pending) :
    started lib cr defs calls i steps s = s ∧ ∀ d, ¬ Ready defs steps s d := by
  rcases hs : startStep lib cr defs calls i steps s with _ | ⟨s', child⟩
  · refine ⟨by rw [started, hs]; rfl, fun d hr => ?_⟩
    cases htmpl : calls.template i with
    | error e =>
      rw [startStep_template_error hr htmpl] at hs
      cases hs
    | ok tmpl =>
      rw [startStep_template_ok hr htmpl] at hs
      cases hs
  · rw [started, hs] at h
    exact absurd h (startStep_move hs).1.ne_pending

theorem started_congr {steps'} (h : ∀ d, allDepsOK steps d = allDepsOK steps' d) :
    started lib cr defs calls i steps s = started lib cr defs calls i steps' s := by
  have hready : ∀ d, Ready defs steps s d ↔ Ready defs steps' s d := fun d => by
    rw [Ready, Ready, h d]
  by_cases hr : ∃ d, Ready defs steps s d
  · obtain ⟨d, hd⟩ := hr
    cases htmpl : calls.template i with
    | error e =>
      rw [started, started, startStep_template_error hd htmpl,
        startStep_template_error ((hready d).1 hd) htmpl]
    | ok tmpl =>
      rw [started, started, startStep_template_ok hd htmpl,
        startStep_template_ok ((hready d).1 hd) htmpl]
      exact createStep_fst cr steps' d tmpl
  · have hr' : ¬ ∃ d, Ready defs steps' s d := by
      simpa [hready] using hr
    rw [started, started, startStep_eq_none hr, startStep_eq_none hr']

theorem startAt_length (i : ℕ) (s : ChainRunStepStatus) (q : ChainPass) :
    (q.startAt lib cr defs calls i s).steps.length = q.steps.length := by
  unfold startAt
  rcases startStep lib cr defs calls i q.steps s with _ | ⟨s', child⟩ <;> simp

theorem startAt_steps (h : p.steps[i]? = some s) : (p.startAt lib cr defs calls i s).steps =
    p.steps.set i (started lib cr defs calls i p.steps s) := by
  unfold startAt started
  rcases startStep lib cr defs calls i p.steps s with _ | ⟨s', child⟩
  · exact (set_of_getElem? h).symm
  · rfl

theorem startAt_allDepsOK (h : p.steps[i]? = some s) (d : ChainStep) :
    allDepsOK (p.startAt lib cr defs calls i s).steps d = allDepsOK p.steps d := by
  unfold startAt
  rcases hstart : startStep lib cr defs calls i p.steps s with _ | ⟨s', child⟩
  · rfl
  · obtain ⟨hmove, hn⟩ := startStep_move hstart
    obtain ⟨d', hr⟩ := ready_of_startStep (isSome_of_eq_some hstart)
    have hs : s.phase ≠ .succeeded := by simp [hr.1]
    have hs' : s'.phase ≠ .succeeded := by
      cases hmove with
      | sync hp hid hp' => simp [hr.1] at hp
      | start d hp hd hok hp' => rcases hp' with ⟨h, -⟩ | h <;> simp [h]
      | skip d dep hp hd hdep hblock hp' => simp [hp']
    exact allDepsOK_set h hn hs hs' d

theorem start_moves : Moves defs p.steps (p.start lib cr defs calls).steps := by
  refine forSteps_keeps (P := fun q => Moves defs p.steps q.steps) startAt_length .refl ?_
  intro i q s hs hq
  unfold startAt
  rcases hstart : startStep lib cr defs calls i q.steps s with _ | ⟨s', child⟩
  · exact hq
  · obtain ⟨hmove, hn⟩ := startStep_move hstart
    exact hq.tail ⟨i, s, s', hs, hn, hmove, rfl⟩

theorem start_getElem? (i : ℕ) : (p.start lib cr defs calls).steps[i]? =
    p.steps[i]?.map (started lib cr defs calls i p.steps) := by
  refine forSteps_getElem? (K := fun q => ∀ d, allDepsOK q.steps d = allDepsOK p.steps d)
    (fun i => started lib cr defs calls i p.steps) startAt_length (fun _ => rfl) ?_ i
  intro i q s hs hK
  refine ⟨?_, fun d => ?_⟩
  · rw [startAt_steps hs, started_congr hK]
  · rw [startAt_allDepsOK hs, hK]

theorem start_allDepsOK (lib : Go.Lib) (cr : ChainRun) (defs : List ChainStep) (calls : ChainCalls)
    (p : ChainPass) (d : ChainStep) :
    allDepsOK (p.start lib cr defs calls).steps d = allDepsOK p.steps d := by
  refine forSteps_keeps (P := fun q => allDepsOK q.steps d = allDepsOK p.steps d)
    startAt_length rfl ?_
  intro i q s hs hq
  rw [startAt_allDepsOK hs, hq]

theorem start_running : ∀ t ∈ (p.start lib cr defs calls).steps, t.phase = .running →
    t ∈ p.steps ∨ ∃ c ∈ (p.start lib cr defs calls).created, c.name = t.runID := by
  refine forSteps_keeps (P := fun q => ∀ t ∈ q.steps, t.phase = .running →
    t ∈ p.steps ∨ ∃ c ∈ q.created, c.name = t.runID) startAt_length (fun t ht _ => .inl ht) ?_
  intro i q s hs hq
  unfold startAt
  rcases hstart : startStep lib cr defs calls i q.steps s with _ | ⟨s', child⟩
  · exact hq
  · intro t ht hp
    rcases mem_or_eq_of_mem_set ht with ht | rfl
    · rcases hq t ht hp with hmem | ⟨c, hc, hname⟩
      · exact .inl hmem
      · exact .inr ⟨c, mem_append_left _ hc, hname⟩
    · obtain ⟨d, -, -, ⟨hf, -⟩ | ⟨tmpl, suffix, -, rfl, ⟨-, hid⟩ | ⟨hf, -⟩⟩⟩ :=
        startStep_cases hstart
      · rw [hf] at hp
        cases hp
      · exact .inr ⟨_, mem_append_right _ (mem_toList.2 rfl), hid.symm⟩
      · rw [hf] at hp
        cases hp

/-! ### Launches -/

/-- The AgentRun `c` is created for the step `s` at position `i`; `before` are the steps when the
start loop begins, `steps` those at its turn `i`. -/
structure Launch (cr : ChainRun) (defs : List ChainStep) (calls : ChainCalls)
    (before steps : List ChainRunStepStatus) (i : ℕ) (s : ChainRunStepStatus) (d : ChainStep)
    (tmpl : RunTemplateSpec) (c : ChildRun) : Prop where
  old : before[i]? = some s
  now : steps[i]? = some s
  ready : Ready defs before s d
  moves : Moves defs before steps
  template : calls.template i = .ok tmpl
  child : ∃ suffix, c = childRun cr steps (calls.context i) d s.name tmpl suffix

/-- The created AgentRuns belong to launches of different steps, none of which is pending after. -/
structure Launches (cr : ChainRun) (defs : List ChainStep) (calls : ChainCalls)
    (before : List ChainRunStepStatus) (k : ℕ) (q : ChainPass) : Prop where
  moves : Moves defs before q.steps
  untouched : ∀ j, k ≤ j → q.steps[j]? = before[j]?
  depsOK : ∀ d, allDepsOK q.steps d = allDepsOK before d
  launch : ∀ c ∈ q.created, ∃ steps i s d tmpl, i < k ∧
    Launch cr defs calls before steps i s d tmpl c ∧ Moves defs steps q.steps ∧
    ∃ t, q.steps[i]? = some t ∧ t.name = s.name ∧ t.phase ≠ .pending
  nodup : (before.map name).Nodup → (q.created.map ChildRun.step).Nodup

theorem startStep_child {c} (h : startStep lib cr defs calls i steps s = some (s', some c)) :
    ∃ d tmpl suffix, Ready defs steps s d ∧ calls.template i = .ok tmpl ∧
      c = childRun cr steps (calls.context i) d s.name tmpl suffix := by
  obtain ⟨d, hr, -, ⟨-, -, hnone⟩ | ⟨tmpl, suffix, htmpl, hchild, -⟩⟩ := startStep_cases h
  · cases hnone
  · exact ⟨d, tmpl, suffix, hr, htmpl, some.inj hchild⟩

theorem Launches.startAt {before k} (h : Launches cr defs calls before k p)
    (hs : p.steps[k]? = some s) :
    Launches cr defs calls before (k + 1) (p.startAt lib cr defs calls k s) := by
  have hold : before[k]? = some s := by rw [← h.untouched k le_rfl, hs]
  have hlt := (List.getElem?_eq_some_iff.1 hs).1
  have hdeps : ∀ d, allDepsOK (p.startAt lib cr defs calls k s).steps d = allDepsOK before d :=
    fun d => by rw [startAt_allDepsOK hs, h.depsOK d]
  revert hdeps
  unfold ChainPass.startAt
  rcases hstart : startStep lib cr defs calls k p.steps s with _ | ⟨s', child⟩
  · intro hdeps
    refine ⟨h.moves, fun j hj => h.untouched j (by omega), hdeps, fun c hc => ?_, h.nodup⟩
    obtain ⟨steps, i, u, d, tmpl, hi, hrest⟩ := h.launch c hc
    exact ⟨steps, i, u, d, tmpl, by omega, hrest⟩
  · intro hdeps
    obtain ⟨hmove, hn⟩ := startStep_move hstart
    have hmoves : Moves defs p.steps (p.steps.set k s') :=
      .single ⟨k, s, s', hs, hn, hmove, rfl⟩
    refine ⟨h.moves.trans hmoves, fun j hj => ?_, hdeps, fun c hc => ?_, fun hnd => ?_⟩
    · rw [set_steps, getElem?_set_ne (by omega)]
      exact h.untouched j (by omega)
    · rcases mem_append.1 hc with hc | hc
      · obtain ⟨steps, i, u, d, tmpl, hi, hl, hlater, t, ht, hname, hp⟩ := h.launch c hc
        refine ⟨steps, i, u, d, tmpl, by omega, hl, hlater.trans hmoves, t, ?_, hname, hp⟩
        rw [set_steps, getElem?_set_ne (by omega)]
        exact ht
      · rw [mem_toList.1 hc] at hstart
        obtain ⟨d, tmpl, suffix, hr, htmpl, rfl⟩ := startStep_child hstart
        have hready : Ready defs before s d := ⟨hr.1, hr.2.1, by rw [← h.depsOK d]; exact hr.2.2⟩
        exact ⟨p.steps, k, s, d, tmpl, by omega,
          ⟨hold, hs, hready, h.moves, htmpl, suffix, rfl⟩, hmoves, s',
          getElem?_set_self hlt, hn, hmove.ne_pending⟩
    · show ((p.created ++ child.toList).map ChildRun.step).Nodup
      rw [map_append, nodup_append]
      refine ⟨h.nodup hnd, ?_, ?_⟩
      · cases child <;> simp
      · intro a ha b hb hab
        obtain ⟨c, hc, rfl⟩ := mem_map.1 ha
        obtain ⟨c', hc', rfl⟩ := mem_map.1 hb
        rw [mem_toList.1 hc'] at hstart
        obtain ⟨d', tmpl', suffix', -, -, rfl⟩ := startStep_child hstart
        obtain ⟨steps, i, u, d, tmpl, hi, ⟨hu, -, -, -, -, suffix, rfl⟩, -⟩ := h.launch c hc
        -- the names at positions `i` and `k` are the same
        obtain ⟨hib, hui⟩ := List.getElem?_eq_some_iff.1 hu
        obtain ⟨hkb, hsk⟩ := List.getElem?_eq_some_iff.1 hold
        have hname : u.name = s.name := hab
        have heq : i = k := by
          have hlen' : k < (before.map name).length := by simpa using hkb
          have hget : (before.map name)[i] =
              (before.map name)[k] := by simp [hui, hsk, hname]
          exact hnd.getElem_inj_iff.1 hget
        omega

theorem start_launches (h : p.created = []) :
    Launches cr defs calls p.steps p.steps.length (p.start lib cr defs calls) :=
  (forSteps_rule (P := fun k q => Launches cr defs calls p.steps k q) startAt_length
    ⟨.refl, fun _ _ => rfl, fun _ => rfl, by simp [h], by simp [h]⟩
    fun _ _ _ hs hq => hq.startAt hs).1

/-! ### Failure propagation -/

def pendingCount (steps : List ChainRunStepStatus) : ℕ := steps.countP (·.phase = .pending)

def Stable (lib : Go.Lib) (defs : List ChainStep) (steps : List ChainRunStepStatus) : Prop :=
  ∀ s ∈ steps, skipStep lib defs steps s = none

theorem skipAt_length (lib : Go.Lib) (defs : List ChainStep) (i : ℕ) (s : ChainRunStepStatus) (q : ChainPass) :
    (q.skipAt lib defs i s).steps.length = q.steps.length := by
  unfold skipAt
  cases skipStep lib defs q.steps s <;> simp

theorem pendingCount_skip
    (h : steps[i]? = some s) (hp : s.phase = .pending) (hp' : s'.phase = .skipped) :
    pendingCount (steps.set i s') < pendingCount steps := by
  obtain ⟨pre, post, rfl, -, hset⟩ := split_of_getElem? h
  rw [hset]
  simp only [pendingCount, countP_append, countP_cons, hp, hp']
  simp

theorem sweep_spec : ((p.sweep lib defs).changed = false →
      (p.sweep lib defs).steps = p.steps ∧ Stable lib defs p.steps) ∧
    ((p.sweep lib defs).changed = true →
      pendingCount (p.sweep lib defs).steps < pendingCount p.steps) := by
  have hrule := (forSteps_rule (p := { p with changed := false }) (P := fun k q =>
      (q.changed = false → q.steps = p.steps ∧
        ∀ j < k, ∀ s, p.steps[j]? = some s → skipStep lib defs p.steps s = none) ∧
      pendingCount q.steps ≤ pendingCount p.steps ∧
      (q.changed = true → pendingCount q.steps < pendingCount p.steps))
    (skipAt_length lib defs)
    ⟨fun _ => ⟨rfl, fun j hj => by omega⟩, le_rfl, fun h => by cases h⟩ ?_).1
  · obtain ⟨hsame, -, hless⟩ := hrule
    refine ⟨fun h => ?_, hless⟩
    obtain ⟨heq, hnone⟩ := hsame h
    refine ⟨heq, fun s hs => ?_⟩
    obtain ⟨j, hj, hget⟩ := mem_iff_getElem.1 hs
    exact hnone j hj s (List.getElem?_eq_some_iff.2 ⟨hj, hget⟩)
  · rintro k q s hs ⟨hsame, hle, hless⟩
    unfold skipAt
    cases hskip : skipStep lib defs q.steps s with
    | none =>
      refine ⟨fun h => ?_, hle, hless⟩
      obtain ⟨heq, hnone⟩ := hsame h
      refine ⟨heq, fun j hj t ht => ?_⟩
      by_cases hjk : j = k
      · subst hjk
        rw [heq] at hs hskip
        rw [hs] at ht
        cases ht
        exact hskip
      · exact hnone j (by omega) t ht
    | some s' =>
      obtain ⟨-, -, -, hp, hp'⟩ := skipStep_some hskip
      have hlt := pendingCount_skip hs hp hp'
      refine ⟨fun h => Bool.noConfusion h, ?_, fun _ => ?_⟩
      · show pendingCount (q.steps.set k s') ≤ _
        omega
      · show pendingCount (q.steps.set k s') < _
        omega

theorem propagate_stable (fuel : ℕ) (h : pendingCount p.steps < fuel) :
    Stable lib defs (p.propagate lib defs fuel).steps := by
  induction fuel generalizing p with
  | zero => omega
  | succ fuel ih =>
    rw [propagate]
    by_cases hc : (p.sweep lib defs).changed = true
    · rw [if_pos hc]
      have := sweep_spec.2 hc
      exact ih (by omega)
    · rw [if_neg hc]
      obtain ⟨heq, hstable⟩ := sweep_spec.1 (Bool.eq_false_iff.2 hc)
      rw [heq]
      exact hstable

theorem propagate_keeps {P : ChainPass → Prop} (fuel : ℕ) (h0 : P p)
    (hreset : ∀ q : ChainPass, P q → P { q with changed := false })
    (hstep : ∀ i q s, q.steps[i]? = some s → P q → P (q.skipAt lib defs i s)) :
    P (p.propagate lib defs fuel) := by
  induction fuel generalizing p with
  | zero => exact h0
  | succ fuel ih =>
    have hsweep := forSteps_keeps (skipAt_length lib defs) (hreset p h0) hstep
    rw [propagate]
    by_cases hc : (p.sweep lib defs).changed = true
    · rw [if_pos hc]
      exact ih hsweep
    · rw [if_neg hc]
      exact hsweep

theorem propagate_moves (fuel : ℕ) : Moves defs p.steps (p.propagate lib defs fuel).steps := by
  refine propagate_keeps (P := fun q => Moves defs p.steps q.steps) fuel .refl (fun _ h => h) ?_
  intro i q s hs hq
  unfold skipAt
  cases hskip : skipStep lib defs q.steps s with
  | none => exact hq
  | some s' =>
    obtain ⟨hmove, hn, -⟩ := skipStep_some hskip
    exact hq.tail ⟨i, s, s', hs, hn, hmove, rfl⟩

theorem propagate_created (fuel : ℕ) : (p.propagate lib defs fuel).created = p.created := by
  refine propagate_keeps (P := fun q => q.created = p.created) fuel rfl (fun _ h => h) ?_
  intro i q s _ hq
  unfold skipAt
  cases skipStep lib defs q.steps s with
  | none | some s' => exact hq

theorem propagate_getElem? (lib : Go.Lib) (defs : List ChainStep) (fuel : ℕ) (h : p.steps[i]? = some s) :
    ∃ s', (p.propagate lib defs fuel).steps[i]? = some s' ∧
      (s' = s ∨ s.phase = .pending ∧ s'.phase = .skipped) := by
  refine propagate_keeps (P := fun q => ∃ s', q.steps[i]? = some s' ∧
    (s' = s ∨ s.phase = .pending ∧ s'.phase = .skipped)) fuel ⟨s, h, .inl rfl⟩ (fun _ h => h) ?_
  rintro j q t ht ⟨s', hs', hcases⟩
  unfold skipAt
  cases hskip : skipStep lib defs q.steps t with
  | none => exact ⟨s', hs', hcases⟩
  | some t' =>
    obtain ⟨-, -, -, hp, hp'⟩ := skipStep_some hskip
    by_cases hij : j = i
    · subst hij
      rw [ht] at hs'
      cases hs'
      refine ⟨t', List.getElem?_set_self (List.getElem?_eq_some_iff.1 ht).1, ?_⟩
      rcases hcases with rfl | ⟨-, hskipped⟩
      · exact .inr ⟨hp, hp'⟩
      · rw [hp] at hskipped
        cases hskipped
    · exact ⟨s', by rw [set_steps, getElem?_set_ne hij]; exact hs', hcases⟩

/-! ### All loops -/

def Quiet (steps : List ChainRunStepStatus) (p : ChainPass) : Prop :=
  p.updated = false → p.steps = steps

variable {steps : List ChainRunStepStatus}

theorem Quiet.set (p : ChainPass) (i : ℕ) (s : ChainRunStepStatus) : Quiet steps (p.set i s) :=
  fun h => Bool.noConfusion h

theorem Quiet.sync (h : Quiet steps p) : Quiet steps (p.sync calls) := by
  refine forSteps_keeps syncAt_length h fun i q s _ hq => ?_
  unfold syncAt
  cases syncStep (calls.run i) s with
  | none => exact hq
  | some s' => exact Quiet.set q i s'

theorem Quiet.start (h : Quiet steps p) : Quiet steps (p.start lib cr defs calls) := by
  refine forSteps_keeps startAt_length h fun i q s _ hq => ?_
  unfold startAt
  rcases startStep lib cr defs calls i q.steps s with _ | ⟨s', child⟩
  · exact hq
  · exact Quiet.set _ i s'

theorem Quiet.propagate (fuel : ℕ) (h : Quiet steps p) :
    Quiet steps (p.propagate lib defs fuel) := by
  refine propagate_keeps fuel h (fun _ h => h) fun i q s _ hq => ?_
  unfold skipAt
  cases skipStep lib defs q.steps s with
  | none => exact hq
  | some s' => exact Quiet.set _ i s'

theorem loops_quiet : Quiet cr.status.steps (loops lib cr defs calls) :=
  have h : Quiet cr.status.steps { steps := cr.status.steps } := fun _ => rfl
  ((h.sync).start).propagate _

def Traced (steps : List ChainRunStepStatus) (p : ChainPass) : Prop :=
  ∀ t ∈ p.steps, t.runID ≠ "" → (∃ u ∈ steps, u.name = t.name ∧ u.runID = t.runID) ∨
    ∃ c ∈ p.created, c.step = t.name ∧ c.name = t.runID

theorem Traced.set (h : Traced steps p) (hs : p.steps[i]? = some s)
    (hn : s'.name = s.name) (hid : s'.runID = s.runID) : Traced steps (p.set i s') := by
  intro t ht
  rcases mem_or_eq_of_mem_set ht with ht | rfl
  · exact h t ht
  · rw [hn, hid]
    exact h s (mem_of_getElem? hs)

theorem Traced.sync (h : Traced steps p) : Traced steps (p.sync calls) := by
  refine forSteps_keeps syncAt_length h fun i q s hs hq => ?_
  unfold syncAt
  cases hsync : syncStep (calls.run i) s with
  | none => exact hq
  | some s' => exact hq.set hs (syncStep_some hsync).2.2.2 (syncStep_some hsync).2.1

theorem Traced.start (h : Traced steps p) : Traced steps (p.start lib cr defs calls) := by
  refine forSteps_keeps startAt_length h fun i q s hs hq => ?_
  unfold startAt
  rcases hstart : startStep lib cr defs calls i q.steps s with _ | ⟨s', child⟩
  · exact hq
  · have hq' : Traced steps { q with created := q.created ++ child.toList } := by
      intro t ht hid
      rcases hq t ht hid with hold | ⟨c, hc, hstep⟩
      · exact .inl hold
      · exact .inr ⟨c, mem_append_left _ hc, hstep⟩
    obtain ⟨d, -, hn, ⟨-, hid, -⟩ | ⟨tmpl, suffix, -, rfl, ⟨-, hid⟩ | ⟨-, hid⟩⟩⟩ :=
      startStep_cases hstart
    · exact hq'.set hs hn hid
    · intro t ht hne
      rcases mem_or_eq_of_mem_set ht with ht | rfl
      · exact hq' t ht hne
      · exact .inr ⟨_, mem_append_right _ (mem_toList.2 rfl), hn.symm, hid.symm⟩
    · exact hq'.set hs hn hid

theorem Traced.propagate (fuel : ℕ) (h : Traced steps p) :
    Traced steps (p.propagate lib defs fuel) := by
  refine propagate_keeps fuel h (fun _ h => h) fun i q s hs hq => ?_
  unfold skipAt
  cases hskip : skipStep lib defs q.steps s with
  | none => exact hq
  | some s' =>
    obtain ⟨-, hn, hid, -⟩ := skipStep_some hskip
    exact Traced.set (p := { q with changed := true }) hq hs hn hid

theorem loops_traced : Traced cr.status.steps (loops lib cr defs calls) :=
  have h : Traced cr.status.steps { steps := cr.status.steps } := fun t ht _ =>
    .inl ⟨t, ht, rfl, rfl⟩
  ((h.sync).start).propagate _

def synced (cr : ChainRun) (calls : ChainCalls) : ChainPass :=
  { steps := cr.status.steps : ChainPass }.sync calls

theorem synced_created : (synced cr calls).created = [] := sync_created

theorem synced_moves (defs : List ChainStep) : Moves defs cr.status.steps (synced cr calls).steps :=
  sync_moves (p := { steps := cr.status.steps })

theorem loops_created : (loops lib cr defs calls).created =
    ((synced cr calls).start lib cr defs calls).created := propagate_created _

theorem synced_start_moves :
    Moves defs cr.status.steps ((synced cr calls).start lib cr defs calls).steps :=
  (synced_moves defs).trans start_moves

theorem synced_launches (lib : Go.Lib) (cr : ChainRun) (defs : List ChainStep) (calls : ChainCalls) :
    Launches cr defs calls (synced cr calls).steps (synced cr calls).steps.length
      ((synced cr calls).start lib cr defs calls) :=
  start_launches synced_created

theorem loops_moves : Moves defs cr.status.steps (loops lib cr defs calls).steps :=
  synced_start_moves.trans (propagate_moves _)

theorem loops_stable (lib : Go.Lib) (cr : ChainRun) (defs : List ChainStep) (calls : ChainCalls) :
    Stable lib defs (loops lib cr defs calls).steps := by
  apply propagate_stable
  have hle : pendingCount ((synced cr calls).start lib cr defs calls).steps ≤
      ((synced cr calls).start lib cr defs calls).steps.length := countP_le_length
  have hlen : ((synced cr calls).start lib cr defs calls).steps.length =
      cr.status.steps.length := by
    have hmoves : Moves defs cr.status.steps ((synced cr calls).start lib cr defs calls).steps :=
      synced_start_moves
    simpa using congrArg length hmoves.names
  rw [hlen] at hle
  exact Nat.lt_succ_of_le hle

end ChainPass

end Uncworks
