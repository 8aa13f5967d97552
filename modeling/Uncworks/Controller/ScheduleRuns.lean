import Uncworks.Controller.Schedule

/-!
# The runs of a Schedule

A Schedule with every version that was stored and the runs created for it.  Reconciles may read any
version, all their calls may fail, and the reads of active runs may return anything.
-/

namespace Uncworks

open Kube List Object

/-! ## The cluster -/

structure TrackedRun where
  run : ScheduledRun
  present : Bool := true
  finished : Bool := false

def TrackedRun.live (t : TrackedRun) : Bool := t.present && !t.finished

/-- Whether a delete of the Replace policy reaches the run at position `j` of the active list. -/
def deleted (r : ScheduleReplies) (j : ℕ) : ScheduledRun → Bool
  | .chainRun .. => match r.oldChainRun j with
    | .ok _ => (r.deleteChainRun j).stores
    | .error _ => false
  | .agentRun .. => match r.oldChainRun j with
    | .ok _ => false
    | .error _ => match r.oldAgentRun j with
      | .ok _ => (r.deleteAgentRun j).stores
      | .error _ => false

def TrackedRun.replace (r : ScheduleReplies) (replaced : List String) (t : TrackedRun) :
    TrackedRun :=
  if replaced.zipIdx.any fun e => e.1 = t.run.name && deleted r e.2 t.run then
    { t with present := false }
  else t

structure ScheduleCluster where
  object : Object Schedule
  runs : List TrackedRun := []

namespace ScheduleCluster

def runsAfter (r : ScheduleReplies) (out : ScheduleOutcome) (runs : List TrackedRun) :
    List TrackedRun :=
  runs.map (TrackedRun.replace r out.replaced) ++ out.created.toList.map fun run => { run := run }

def reconcile (parse : String → Option Cron) (r : ScheduleReplies) (i : ℕ) (s : ScheduleCluster) :
    ScheduleCluster :=
  match s.object.versions[i]? with
  | none => s
  | some sched =>
    let out := reconcileSchedule parse r s.object i sched
    { object := out.object, runs := runsAfter r out s.runs }

/-- A step: a reconcile that meets a condition, an edit that keeps the concurrency policy, and a run
that finishes or is deleted. -/
inductive Step (parse : String → Option Cron)
    (allowed : ScheduleCluster → ScheduleReplies → ℕ → Prop) :
    ScheduleCluster → ScheduleCluster → Prop
  | reconcile {s} (r : ScheduleReplies) (i : ℕ) (h : allowed s r i) :
      Step parse allowed s (s.reconcile parse r i)
  | edit {s sched} (h : s.object.current = some sched) (spec : ScheduleSpec)
      (hp : spec.concurrencyPolicy = sched.spec.concurrencyPolicy) :
      Step parse allowed s { s with object := { s.object with
        versions := s.object.versions ++ [{ sched with spec := spec }] } }
  | finish {s pre t post} (h : s.runs = pre ++ t :: post) (present : Bool) :
      Step parse allowed s { s with
        runs := pre ++ { t with finished := true, present := t.present && present } :: post }

def Reaches (parse : String → Option Cron)
    (allowed : ScheduleCluster → ScheduleReplies → ℕ → Prop) :
    ScheduleCluster → ScheduleCluster → Prop :=
  Relation.ReflTransGen (Step parse allowed)

end ScheduleCluster

/-! ## What a reconcile writes -/

section Outcome

variable {parse : String → Option Cron} {r : ScheduleReplies} {o : Object Schedule} {i : ℕ}
  {sched : Schedule} {p : PrunedSchedule}

@[simp] theorem withNext_active (next : ℕ) :
    (sched.withNext next).status.active = sched.status.active := rfl

@[simp] theorem withNext_spec (next : ℕ) : (sched.withNext next).spec = sched.spec := rfl

theorem pruneActiveList_sublist (r : ScheduleReplies) (active : List String) :
    (pruneActiveList r active).Sublist active := by
  have hsub := (filter_sublist
    (p := fun e : String × ℕ => keepActive (r.chainRun e.2) (r.agentRun e.2))
    (l := active.zipIdx)).map Prod.fst
  rwa [zipIdx_map_fst] at hsub

theorem mem_pruneActiveList {active id j} (h : active[j]? = some id)
    (hk : keepActive (r.chainRun j) (r.agentRun j)) : id ∈ pruneActiveList r active := by
  refine mem_map.2 ⟨(id, j), mem_filter.2 ⟨?_, hk⟩, rfl⟩
  rw [mem_zipIdx_iff_getElem?]
  exact h

/-- What the pruning leads to: it goes on with the pruned Schedule, which it has stored if it was
changed. -/
theorem pruneSchedule_ok (h : pruneSchedule r o i sched = .ok p) :
    p.sched = sched.withActive (pruneActiveList r sched.status.active) ∧
      (p = { object := o, index := i, sched := sched } ∨ (o.isCurrent i ∧ p.index = i + 1 ∧
        p.object = o.write i p.sched .ok)) := by
  unfold pruneSchedule at h
  dsimp only at h
  split at h
  · rename_i heq
    cases h
    refine ⟨?_, .inl rfl⟩
    rw [heq]
    rfl
  · split at h
    · cases h
    · rename_i hnone
      cases h
      obtain ⟨hcur, hok⟩ := writeError_eq_none.1 hnone
      refine ⟨rfl, .inr ⟨hcur, rfl, ?_⟩⟩
      rw [hok]

theorem pruneSchedule_pruned (h : pruneSchedule r o i sched = .ok p) :
    pruneActiveList r sched.status.active = sched.status.active ∨
      (o.isCurrent i ∧ r.pruneUpdate = .ok) := by
  unfold pruneSchedule at h
  dsimp only at h
  split at h
  · rename_i heq
    exact .inl heq
  · split at h
    · cases h
    · rename_i hnone
      exact .inr (writeError_eq_none.1 hnone)

theorem pruneSchedule_keeps (h : pruneSchedule r o i sched = .ok p) :
    p.sched.spec = sched.spec ∧ p.sched.lastScheduled = sched.lastScheduled ∧
      p.sched.status.active = pruneActiveList r sched.status.active := by
  obtain ⟨hp, -⟩ := pruneSchedule_ok h
  rw [hp]
  exact ⟨rfl, rfl, rfl⟩

theorem pruneSchedule_read (h : pruneSchedule r o i sched = .ok p)
    (hv : o.versions[i]? = some sched) : p.object.versions[p.index]? = some p.sched := by
  obtain ⟨-, rfl | ⟨hcur, hi, ho⟩⟩ := pruneSchedule_ok h
  · exact hv
  · rw [ho, hi, write_of_stores hcur rfl, (isCurrent_iff.1 hcur).2]
    exact getElem?_concat_length

theorem pruneSchedule_isCurrent (h : pruneSchedule r o i sched = .ok p)
    (hcur : o.isCurrent i) : p.object.isCurrent p.index := by
  obtain ⟨-, rfl | ⟨-, hi, ho⟩⟩ := pruneSchedule_ok h
  · exact hcur
  · rw [ho, hi]
    exact isCurrent_write hcur rfl

theorem pruneSchedule_error {out} (h : pruneSchedule r o i sched = .error out) :
    out.object = o.write i (sched.withActive (pruneActiveList r sched.status.active))
      r.pruneUpdate ∧ out.created = none ∧ out.replaced = [] := by
  unfold pruneSchedule at h
  dsimp only at h
  split at h
  · cases h
  · split at h
    · cases h
      exact ⟨rfl, rfl, rfl⟩
    · cases h

inductive CheckOutcome (parse : String → Option Cron) (r : ScheduleReplies)
    (o : Object Schedule) (i : ℕ) (sched : Schedule) : ScheduleOutcome → Prop
  /-- The cron expression is not valid. -/
  | invalid (hc : parse sched.spec.cron = none) : CheckOutcome parse r o i sched { object := o }
  /-- Nothing is due. -/
  | early (cron : Cron) (hc : parse sched.spec.cron = some cron)
      (hdue : r.now < cron.next sched.lastScheduled) :
      CheckOutcome parse r o i sched
        { object := o.write i (sched.withNext (cron.next r.now)) r.update
          result := updateResult o i r (cron.next r.now) }
  /-- A run is due, but another one is active. -/
  | forbidden (cron : Cron) (hc : parse sched.spec.cron = some cron)
      (hdue : cron.next sched.lastScheduled ≤ r.now)
      (hf : sched.spec.concurrencyPolicy = .forbid) (ha : sched.status.active ≠ []) :
      CheckOutcome parse r o i sched
        { object := o, result := .requeueAfter (cron.next r.now - r.stamp + second) }
  /-- A run is due. -/
  | fires (cron : Cron) (hc : parse sched.spec.cron = some cron)
      (hdue : cron.next sched.lastScheduled ≤ r.now)
      (hf : ¬ (sched.spec.concurrencyPolicy = .forbid ∧ sched.status.active ≠ [])) :
      CheckOutcome parse r o i sched
        (fireSchedule r o i (sched.withNext (cron.next r.now)) (cron.next r.now))

theorem checkSchedule_outcome (parse : String → Option Cron) (r : ScheduleReplies)
    (o : Object Schedule) (i : ℕ) (sched : Schedule) :
    CheckOutcome parse r o i sched (checkSchedule parse r o i sched) := by
  unfold checkSchedule
  cases hc : parse sched.spec.cron with
  | none => exact .invalid hc
  | some cron =>
    dsimp only
    by_cases hdue : r.now < cron.next sched.lastScheduled
    · rw [if_pos hdue]
      exact .early cron hc hdue
    · rw [if_neg hdue]
      by_cases hf : sched.spec.concurrencyPolicy = .forbid ∧ sched.status.active ≠ []
      · rw [if_pos hf]
        exact .forbidden cron hc (by omega) hf.1 hf.2
      · rw [if_neg hf]
        exact .fires cron hc (by omega) hf

/-! What firing leads to. -/

theorem fireSchedule_replaced (next : ℕ) : (fireSchedule r o i sched next).replaced =
    if sched.spec.concurrencyPolicy = .replace then sched.status.active else [] := by
  unfold fireSchedule
  cases createRun r sched <;> rfl

theorem fireSchedule_error {e} (h : createRun r sched = .error e) (next : ℕ) :
    (fireSchedule r o i sched next).object = o ∧
      (fireSchedule r o i sched next).created = e.lost := by
  unfold fireSchedule
  rw [h]
  exact ⟨rfl, rfl⟩

theorem fireSchedule_ok {run} (h : createRun r sched = .ok run) (next : ℕ) :
    (fireSchedule r o i sched next).object = o.write i (sched.fired r.stamp run.name
        (if sched.spec.concurrencyPolicy = .replace then [] else sched.status.active)) r.update ∧
      (fireSchedule r o i sched next).created = some run := by
  unfold fireSchedule
  rw [h]
  exact ⟨rfl, rfl⟩

theorem createRun_ok {run} (h : createRun r sched = .ok run) :
    ∃ suffix, r.create = .created suffix := by
  have hreply : ∀ text f, createScheduled text f r.create = .ok run →
      ∃ suffix, r.create = .created suffix := by
    intro text f heq
    cases hc : r.create with
    | created suffix => exact ⟨suffix, rfl⟩
    | refused e | lost suffix e =>
      rw [hc] at heq
      cases heq
  unfold createRun at h
  split at h
  · exact hreply _ _ h
  · split at h
    · cases h
    · exact hreply _ _ h

theorem createRun_error {e} (h : createRun r sched = .error e)
    (hl : ∀ suffix e, r.create ≠ .lost suffix e) : e.lost = none := by
  have hreply : ∀ text f, createScheduled text f r.create = .error e → e.lost = none := by
    intro text f heq
    cases hc : r.create with
    | created suffix =>
      rw [hc] at heq
      cases heq
    | refused e =>
      rw [hc] at heq
      cases heq
      rfl
    | lost suffix e => exact absurd hc (hl suffix e)
  unfold createRun at h
  split at h
  · exact hreply _ _ h
  · split at h
    · cases h
      rfl
    · exact hreply _ _ h

end Outcome

/-! ## The Forbid policy -/

/-- For the current version the reads of live runs do not say that they are finished or gone, a
creation that reports an error has created nothing, and one that succeeds is based on the current
version and recorded. -/
structure KeepsTrack (s : ScheduleCluster) (r : ScheduleReplies) (i : ℕ) : Prop where
  reads : s.object.isCurrent i → ∀ sched, s.object.versions[i]? = some sched → ∀ t ∈ s.runs,
    t.live → ∀ j, sched.status.active[j]? = some t.run.name → keepActive (r.chainRun j) (r.agentRun j)
  noLoss : ∀ suffix e, r.create ≠ .lost suffix e
  recorded : ∀ suffix, r.create = .created suffix → s.object.isCurrent i ∧ r.update.stores

structure OneLive (s : ScheduleCluster) : Prop where
  forbid : ∀ v ∈ s.object.versions, v.spec.concurrencyPolicy = .forbid
  listed : ∀ t ∈ s.runs, t.live → ∀ v, s.object.versions.getLast? = some v →
    t.run.name ∈ v.status.active
  one : (s.runs.filter TrackedRun.live).length ≤ 1

section Forbid

variable {parse : String → Option Cron} {r : ScheduleReplies} {i : ℕ} {s s' : ScheduleCluster}
  {sched : Schedule}

theorem runsAfter_kept {out} (h : out.replaced = []) (runs : List TrackedRun) :
    ScheduleCluster.runsAfter r out runs =
      runs ++ out.created.toList.map fun run => { run := run } := by
  have hid : TrackedRun.replace r out.replaced = id := by
    rw [h]
    rfl
  rw [ScheduleCluster.runsAfter, hid, map_id]

theorem runsAfter_nil (o : Object Schedule) (result : Result) (runs : List TrackedRun) :
    ScheduleCluster.runsAfter r { object := o, result := result } runs = runs := by
  rw [runsAfter_kept rfl]
  exact append_nil runs

theorem OneLive.listed_current (h : OneLive s) (hcur : s.object.isCurrent i)
    (hv : s.object.versions[i]? = some sched) {t} (ht : t ∈ s.runs) (hl : t.live) :
    t.run.name ∈ sched.status.active :=
  h.listed t ht hl sched (getLast?_of_current (current_eq hcur hv))

theorem OneLive.write (h : OneLive s) (hv : s.object.versions[i]? = some sched) (x : Schedule)
    (hp : x.spec.concurrencyPolicy = .forbid)
    (hx : s.object.isCurrent i → ∀ t ∈ s.runs, t.live → t.run.name ∈ sched.status.active →
      t.run.name ∈ x.status.active) (reply : Reply) :
    OneLive { s with object := s.object.write i x reply } := by
  by_cases hw : s.object.isCurrent i ∧ reply.stores
  · rw [write_of_stores hw.1 hw.2]
    refine ⟨forall_mem_append.2 ⟨h.forbid, forall_mem_singleton.2 hp⟩,
      fun t ht hl v hlast => ?_, h.one⟩
    · rw [getLast?_concat] at hlast
      cases hlast
      exact hx hw.1 t ht hl (h.listed_current hw.1 hv ht hl)
  · rw [write_of_not hw]
    exact h

theorem OneLive.fire (h : OneLive s) (hv : s.object.versions[i]? = some sched)
    (hnil : sched.status.active = []) (x : Schedule) (hp : x.spec.concurrencyPolicy = .forbid) {run}
    (hx : run.name ∈ x.status.active) {reply} (hcur : s.object.isCurrent i) (hr : reply.stores) :
    OneLive { object := s.object.write i x reply, runs := s.runs ++ [{ run := run }] } := by
  have hdead : ∀ t ∈ s.runs, ¬ t.live := by
    intro t ht hl
    have := h.listed_current hcur hv ht hl
    rw [hnil] at this
    cases this
  rw [write_of_stores hcur hr]
  refine ⟨forall_mem_append.2 ⟨h.forbid, forall_mem_singleton.2 hp⟩,
    fun t ht hl v hlast => ?_, ?_⟩
  · rw [getLast?_concat] at hlast
    cases hlast
    rcases mem_append.1 ht with ht | ht
    · exact absurd hl (hdead t ht)
    · rw [mem_singleton.1 ht]
      exact hx
  · rw [filter_append, filter_eq_nil_iff.2 hdead]
    exact length_filter_le _ _

theorem OneLive.check (h : OneLive s) (hv : s.object.versions[i]? = some sched)
    (hloss : ∀ suffix e, r.create ≠ .lost suffix e)
    (hrec : ∀ suffix, r.create = .created suffix → s.object.isCurrent i ∧ r.update.stores) :
    OneLive { object := (checkSchedule parse r s.object i sched).object
              runs := ScheduleCluster.runsAfter r (checkSchedule parse r s.object i sched) s.runs }
    := by
  have hp := h.forbid _ (mem_of_getElem? hv)
  have hout := checkSchedule_outcome parse r s.object i sched
  generalize checkSchedule parse r s.object i sched = out at hout
  cases hout with
  | invalid | forbidden =>
    rw [runsAfter_nil]
    exact h
  | early cron hc hdue =>
    rw [runsAfter_nil]
    exact h.write hv (sched.withNext _) hp (fun _ _ _ _ hmem => hmem) _
  | fires cron hc hdue hf =>
    have hnil : sched.status.active = [] := by
      by_contra hne
      exact hf ⟨hp, hne⟩
    have hrep : ¬ (sched.withNext (cron.next r.now)).spec.concurrencyPolicy = .replace := by
      rw [withNext_spec, hp]
      decide
    rw [runsAfter_kept ((fireSchedule_replaced _).trans (if_neg hrep))]
    cases hcr : createRun r (sched.withNext (cron.next r.now)) with
    | error e =>
      obtain ⟨ho, hc⟩ := fireSchedule_error (o := s.object) (i := i) hcr (cron.next r.now)
      rw [ho, hc, createRun_error hcr hloss]
      simpa using h
    | ok run =>
      obtain ⟨suffix, hs⟩ := createRun_ok hcr
      obtain ⟨hcur, hr⟩ := hrec suffix hs
      obtain ⟨ho, hc⟩ := fireSchedule_ok (o := s.object) (i := i) hcr (cron.next r.now)
      rw [ho, hc]
      exact h.fire hv hnil ((sched.withNext _).fired r.stamp run.name _) hp
        (mem_append_right _ (mem_singleton_self _)) hcur hr

theorem OneLive.reconcile (h : OneLive s) (hk : KeepsTrack s r i) :
    OneLive (s.reconcile parse r i) := by
  unfold ScheduleCluster.reconcile
  cases hv : s.object.versions[i]? with
  | none => exact h
  | some sched =>
    have hp := h.forbid _ (mem_of_getElem? hv)
    have hkeep : s.object.isCurrent i → ∀ t ∈ s.runs, t.live →
        t.run.name ∈ sched.status.active →
        t.run.name ∈ pruneActiveList r sched.status.active := by
      intro hcur t ht hl hmem
      obtain ⟨j, hj⟩ := getElem?_of_mem hmem
      exact mem_pruneActiveList hj (hk.reads hcur sched hv t ht hl j hj)
    dsimp only
    unfold reconcileSchedule
    split
    · rw [runsAfter_nil]
      exact h
    split
    · rw [runsAfter_nil]
      exact h
    cases hprune : pruneSchedule r s.object i sched with
    | error out =>
      obtain ⟨ho, hc, hr⟩ := pruneSchedule_error hprune
      obtain ⟨object, created, replaced, result⟩ := out
      dsimp only at ho hc hr ⊢
      rw [hc, hr, ho, runsAfter_nil]
      exact h.write hv (sched.withActive (pruneActiveList r _)) hp hkeep _
    | ok p =>
      have hpruned : OneLive { s with object := p.object } := by
        obtain ⟨hsched, rfl | ⟨-, -, ho⟩⟩ := pruneSchedule_ok hprune
        · exact h
        · rw [ho, hsched]
          exact h.write hv (sched.withActive (pruneActiveList r _)) hp hkeep _
      refine hpruned.check (pruneSchedule_read hprune hv) hk.noLoss fun suffix hs => ?_
      obtain ⟨hcur, hr⟩ := hk.recorded suffix hs
      exact ⟨pruneSchedule_isCurrent hprune hcur, hr⟩

theorem OneLive.step (h : OneLive s) (hs : ScheduleCluster.Step parse KeepsTrack s s') :
    OneLive s' := by
  cases hs with
  | reconcile r i hk => exact h.reconcile hk
  | @edit sched hcur spec hp =>
    have hlast := getLast?_of_current hcur
    have hsched := h.forbid _ (mem_of_getLast? hlast)
    refine ⟨forall_mem_append.2 ⟨h.forbid, forall_mem_singleton.2 (hp.trans hsched)⟩,
      fun t ht hl v hv => ?_, h.one⟩
    · rw [getLast?_concat] at hv
      cases hv
      exact h.listed t ht hl sched hlast
  | @finish pre t post hruns present =>
    obtain ⟨hforbid, hlisted, hone⟩ := h
    rw [hruns] at hlisted hone
    refine ⟨hforbid, fun u hu hl v hv => ?_, ?_⟩
    · refine hlisted u ?_ hl v hv
      simp only [mem_append, mem_cons] at hu ⊢
      rcases hu with hu | rfl | hu
      · exact .inl hu
      · exact absurd hl (by simp [TrackedRun.live])
      · exact .inr (.inr hu)
    · refine le_trans ?_ hone
      simp only [filter_append, length_append]
      gcongr 1
      rw [filter_cons_of_neg (by simp [TrackedRun.live])]
      exact (sublist_cons_self t post).filter _ |>.length_le

end Forbid

def ScheduleCluster.created (name : String) (creationTimestamp : ℕ) (spec : ScheduleSpec) :
    ScheduleCluster where
  object := { versions := [{ name := name, creationTimestamp := creationTimestamp, spec := spec }] }

/-- Under the Forbid policy at most one run is live, if no reconcile loses sight of a live run. -/
theorem at_most_one_live (parse : String → Option Cron) (name : String) (creationTimestamp : ℕ)
    (spec : ScheduleSpec) (hf : spec.concurrencyPolicy = .forbid) (s : ScheduleCluster)
    (h : ScheduleCluster.Reaches parse KeepsTrack (.created name creationTimestamp spec) s) :
    (s.runs.filter TrackedRun.live).length ≤ 1 := by
  have hinv : OneLive s := by
    induction h with
    | refl =>
      refine ⟨fun v hv => ?_, fun t ht => ?_, Nat.zero_le _⟩
      · rw [List.mem_singleton.1 hv]
        exact hf
      · cases ht
    | tail _ hs ih => exact ih.step hs
  exact hinv.one

section Sample

def parseMinutes : String → Option Cron
  | "* * * * *" => some .everyMinute
  | _ => none

def minutelySpec (policy : ConcurrencyPolicy) : ScheduleSpec where
  cron := "* * * * *"
  concurrencyPolicy := policy
  chainRef := "nightly"

def minutely (policy : ConcurrencyPolicy) : ScheduleCluster :=
  .created "minutely" 0 (minutelySpec policy)

def repliesAt (now : ℕ) (suffix : String) : ScheduleReplies where
  now := now
  stamp := now
  chainRun _ := .ok .running
  agentRun _ := .error (.notFound "agentrun not found")
  oldChainRun _ := .ok ()
  deleteChainRun _ := .ok
  oldAgentRun _ := .error (.notFound "agentrun not found")
  deleteAgentRun _ := .ok
  template := .error (.notFound "template not found")
  create := .created suffix

end Sample

/-- A second run is due while the first one is active, and is skipped. -/
theorem at_most_one_live_skipped :
    let s := (minutely .forbid).reconcile parseMinutes (repliesAt (60 * Cron.second) "a") 0
    let r := repliesAt (120 * Cron.second) "b"
    ((s.reconcile parseMinutes r 1).runs.filter TrackedRun.live).length = 1 ∧
      ((s.reconcile parseMinutes r 1).runs.filter TrackedRun.live).length ≤ 1 := by
  refine ⟨by decide, ?_⟩
  refine at_most_one_live parseMinutes "minutely" 0 _ rfl _
    (.tail (.single (.reconcile (repliesAt (60 * Cron.second) "a") 0 ?_))
      (.reconcile (repliesAt (120 * Cron.second) "b") 1 ?_))
  · refine ⟨fun _ _ _ t ht => ?_, fun _ _ h => ?_, fun _ _ => by decide⟩
    · cases ht
    · cases h
  · exact ⟨fun _ _ _ _ _ _ _ _ => rfl, fun _ _ h => CreateReply.noConfusion h, fun _ _ => by decide⟩

/-- Two runs are live if the status update after the first creation is refused, and also if the
active ChainRun cannot be read, as there is no AgentRun of that name. -/
theorem two_live :
    (∃ s, ScheduleCluster.Reaches parseMinutes (fun _ _ _ => True) (minutely .forbid) s ∧
      (s.runs.filter TrackedRun.live).length = 2) ∧
    ∃ s, ScheduleCluster.Reaches parseMinutes
        (fun s r i => s.object.isCurrent i ∧ r.pruneUpdate = .ok ∧ r.update = .ok)
        (minutely .forbid) s ∧
      (s.runs.filter TrackedRun.live).length = 2 := by
  constructor
  · let r : ScheduleReplies :=
      { repliesAt (60 * Cron.second) "a" with update := .refused (.other "timeout") }
    refine ⟨_, .tail (.single (.reconcile r 0 trivial)) (.reconcile r 0 trivial), ?_⟩
    decide
  · let r : ScheduleReplies :=
      { repliesAt (120 * Cron.second) "b" with chainRun := fun _ => .error (.other "timeout") }
    refine ⟨_, .tail (.single (.reconcile (repliesAt (60 * Cron.second) "a") 0 ?_))
      (.reconcile r 1 ?_), ?_⟩
    · exact ⟨by decide, rfl, rfl⟩
    · exact ⟨by decide, rfl, rfl⟩
    · decide

/-! ## The Replace policy -/

def listsActive (o : Object Schedule) (id : String) : Prop :=
  ∃ v, o.current = some v ∧ id ∈ v.status.active

/-- The Replace policy gets to the active runs: the pruned list is stored, and a run is due. -/
structure ReplaceDue (parse : String → Option Cron) (r : ScheduleReplies)
    (o : Object Schedule) (i : ℕ) (sched : Schedule) : Prop where
  policy : sched.spec.concurrencyPolicy = .replace
  resumed : sched.spec.suspend = false
  target : sched.hasTarget
  pruned : pruneActiveList r sched.status.active = sched.status.active ∨
    (o.isCurrent i ∧ r.pruneUpdate = .ok)
  due : ∃ cron, parse sched.spec.cron = some cron ∧ cron.next sched.lastScheduled ≤ r.now

structure Replaces (parse : String → Option Cron) (r : ScheduleReplies)
    (o : Object Schedule) (i : ℕ) (sched : Schedule) : Prop
    extends ReplaceDue parse r o i sched where
  created : ∃ suffix, r.create = .created suffix
  template : sched.spec.chainRef ≠ "" ∨ ∃ tmpl, r.template = .ok tmpl
  current : o.isCurrent i
  stored : r.update.stores

def NameUnused (r : ScheduleReplies) (runs : List TrackedRun) : Prop :=
  ∀ suffix, r.create = .created suffix → ∀ t ∈ runs, t.present →
    t.run.name ≠ "cr-" ++ suffix ∧ t.run.name ≠ "ar-" ++ suffix

section Replace

variable {parse : String → Option Cron} {r : ScheduleReplies} {o : Object Schedule} {i : ℕ}
  {sched : Schedule} {id : String}

theorem createRun_created (sched : Schedule) {suffix} (hc : r.create = .created suffix)
    (ht : sched.spec.chainRef ≠ "" ∨ ∃ tmpl, r.template = .ok tmpl) :
    ∃ run, createRun r sched = .ok run ∧
      (run.name = "cr-" ++ suffix ∨ run.name = "ar-" ++ suffix) := by
  unfold createRun
  by_cases hchain : sched.spec.chainRef ≠ ""
  · rw [if_pos hchain, hc]
    exact ⟨_, rfl, .inl rfl⟩
  · rw [if_neg hchain]
    obtain ⟨tmpl, htmpl⟩ := ht.resolve_left hchain
    rw [htmpl, hc]
    exact ⟨_, rfl, .inr rfl⟩

theorem createRun_template {run} (h : createRun r sched = .ok run) :
    sched.spec.chainRef ≠ "" ∨ ∃ tmpl, r.template = .ok tmpl := by
  unfold createRun at h
  by_cases hchain : sched.spec.chainRef ≠ ""
  · exact .inl hchain
  · rw [if_neg hchain] at h
    cases ht : r.template with
    | ok tmpl => exact .inr ⟨tmpl, rfl⟩
    | error e =>
      rw [ht] at h
      cases h

theorem pruneSchedule_of_pruned
    (h : pruneActiveList r sched.status.active = sched.status.active ∨
      (o.isCurrent i ∧ r.pruneUpdate = .ok)) : ∃ p, pruneSchedule r o i sched = .ok p := by
  unfold pruneSchedule
  by_cases heq : pruneActiveList r sched.status.active = sched.status.active
  · rw [if_pos heq]
    exact ⟨_, rfl⟩
  · obtain ⟨hcur, hok⟩ := h.resolve_left heq
    rw [if_neg heq, writeError_eq_none.2 ⟨hcur, hok⟩]
    exact ⟨_, rfl⟩

theorem ReplaceDue.fires (h : ReplaceDue parse r o i sched) :
    ∃ (p : PrunedSchedule) (cron : Cron), pruneSchedule r o i sched = .ok p ∧
      reconcileSchedule parse r o i sched =
        fireSchedule r p.object p.index (p.sched.withNext (cron.next r.now)) (cron.next r.now) := by
  obtain ⟨p, hprune⟩ := pruneSchedule_of_pruned h.pruned
  obtain ⟨cron, hc, hdue⟩ := h.due
  obtain ⟨hspec, hlast, -⟩ := pruneSchedule_keeps hprune
  refine ⟨p, cron, hprune, ?_⟩
  unfold reconcileSchedule
  rw [h.resumed, if_neg Bool.false_ne_true, h.target, if_neg (by decide), hprune]
  dsimp only
  unfold checkSchedule
  rw [hspec, hc]
  dsimp only
  rw [hlast, if_neg (by omega), if_neg]
  rw [h.policy]
  exact fun hf => ConcurrencyPolicy.noConfusion hf.1

theorem replaceDue_of_mem (h : id ∈ (reconcileSchedule parse r o i sched).replaced) :
    ReplaceDue parse r o i sched := by
  unfold reconcileSchedule at h
  split at h
  · cases h
  rename_i hsus
  split at h
  · cases h
  rename_i htar
  cases hprune : pruneSchedule r o i sched with
  | error out =>
    rw [hprune] at h
    rw [(pruneSchedule_error hprune).2.2] at h
    cases h
  | ok p =>
    rw [hprune] at h
    dsimp only at h
    obtain ⟨hspec, hlast, -⟩ := pruneSchedule_keeps hprune
    have hout := checkSchedule_outcome parse r p.object p.index p.sched
    generalize checkSchedule parse r p.object p.index p.sched = out at hout h
    cases hout with
    | invalid | early | forbidden => cases h
    | fires cron hc hdue hf =>
      rw [fireSchedule_replaced, withNext_spec, hspec] at h
      have hpol : sched.spec.concurrencyPolicy = .replace := by
        by_contra hne
        rw [if_neg hne] at h
        cases h
      refine ⟨hpol, by simpa using hsus, by simpa using htar, pruneSchedule_pruned hprune,
        cron, ?_, ?_⟩
      · rw [← hspec]
        exact hc
      · rw [← hlast]
        exact hdue

theorem pruneSchedule_lists {p} (h : pruneSchedule r o i sched = .ok p)
    (hid : id ∈ p.sched.status.active) (ho : listsActive o id) : listsActive p.object id := by
  obtain ⟨-, rfl | ⟨hcur, -, hobj⟩⟩ := pruneSchedule_ok h
  · exact ho
  · refine ⟨p.sched, ?_, hid⟩
    rw [hobj]
    exact current_write_of_stores hcur rfl

theorem replaces_of_removed
    (h : id ∈ (reconcileSchedule parse r o i sched).replaced) (ho : listsActive o id)
    (hout : ¬ listsActive (reconcileSchedule parse r o i sched).object id) :
    Replaces parse r o i sched := by
  have hdue := replaceDue_of_mem h
  obtain ⟨p, cron, hprune, heq⟩ := hdue.fires
  obtain ⟨hspec, -, -⟩ := pruneSchedule_keeps hprune
  rw [heq, fireSchedule_replaced, withNext_spec, hspec, if_pos hdue.policy] at h
  have hkept := pruneSchedule_lists hprune h ho
  rw [heq] at hout
  cases hcr : createRun r (p.sched.withNext (cron.next r.now)) with
  | error e =>
    rw [(fireSchedule_error hcr _).1] at hout
    exact absurd hkept hout
  | ok run =>
    have htmpl := createRun_template hcr
    rw [withNext_spec, hspec] at htmpl
    have hw : p.object.isCurrent p.index ∧ r.update.stores := by
      by_contra hnot
      rw [(fireSchedule_ok hcr _).1, write_of_not hnot] at hout
      exact hout hkept
    refine ⟨hdue, createRun_ok hcr, htmpl, ?_, hw.2⟩
    obtain ⟨-, rfl | ⟨hcur, -, -⟩⟩ := pruneSchedule_ok hprune
    · exact hw.1
    · exact hcur

theorem Replaces.replaced (h : Replaces parse r o i sched) :
    (reconcileSchedule parse r o i sched).replaced = pruneActiveList r sched.status.active ∧
      ∃ suffix, r.create = .created suffix ∧ ∀ id,
        listsActive (reconcileSchedule parse r o i sched).object id →
          id = "cr-" ++ suffix ∨ id = "ar-" ++ suffix := by
  obtain ⟨p, cron, hprune, heq⟩ := h.toReplaceDue.fires
  obtain ⟨hspec, -, hactive⟩ := pruneSchedule_keeps hprune
  obtain ⟨suffix, hs⟩ := h.created
  have htmpl := h.template
  rw [← hspec] at htmpl
  obtain ⟨run, hrun, hname⟩ :=
    createRun_created (p.sched.withNext (cron.next r.now)) hs htmpl
  have hcur := pruneSchedule_isCurrent hprune h.current
  refine ⟨?_, suffix, hs, fun id hid => ?_⟩
  · rw [heq, fireSchedule_replaced, withNext_spec, hspec, if_pos h.policy, withNext_active, hactive]
  · obtain ⟨v, hv, hmem⟩ := hid
    rw [heq, (fireSchedule_ok hrun _).1, current_write_of_stores hcur h.stored,
      withNext_spec, hspec, if_pos h.policy] at hv
    cases hv
    rw [mem_singleton.1 hmem]
    exact hname

theorem replace_present (replaced : List String) (t : TrackedRun) :
    (t.replace r replaced).present = false ↔
      t.present = false ∨ ∃ j : ℕ, replaced[j]? = some t.run.name ∧ deleted r j t.run := by
  have hany : (replaced.zipIdx.any fun e => e.1 = t.run.name && deleted r e.2 t.run) ↔
      ∃ j : ℕ, replaced[j]? = some t.run.name ∧ deleted r j t.run := by
    simp only [any_eq_true, Bool.and_eq_true, decide_eq_true_eq]
    constructor
    · rintro ⟨⟨id, j⟩, hmem, rfl, hd⟩
      exact ⟨j, mem_zipIdx_iff_getElem?.1 hmem, hd⟩
    · rintro ⟨j, hj, hd⟩
      exact ⟨(t.run.name, j), mem_zipIdx_iff_getElem?.2 hj, rfl, hd⟩
  unfold TrackedRun.replace
  split
  · rename_i h
    exact ⟨fun _ => .inr (hany.1 h), fun _ => rfl⟩
  · rename_i h
    exact ⟨.inl, fun hor => hor.resolve_right fun hj => h (hany.2 hj)⟩

end Replace

/-- The Replace policy tries to delete every active run.  The runs it removes from the active list
are gone exactly if, whenever the new run is created and recorded, each of them that exists is found
and its delete takes effect. -/
theorem replaced_deleted_iff (parse : String → Option Cron) (r : ScheduleReplies)
    (s : ScheduleCluster) (i : ℕ) (sched : Schedule) (hv : s.object.versions[i]? = some sched)
    (hn : NameUnused r
      (s.runs.map (TrackedRun.replace r (pruneActiveList r sched.status.active)))) :
    let out := reconcileSchedule parse r s.object i sched
    let active := pruneActiveList r sched.status.active
    (ReplaceDue parse r s.object i sched → out.replaced = active) ∧
      ((∀ id ∈ out.replaced, listsActive s.object id → ¬ listsActive out.object id →
          ∀ t ∈ s.runs, t.run.name = id → (t.replace r out.replaced).present = false) ↔
        (Replaces parse r s.object i sched → ∀ t ∈ s.runs, t.present → t.run.name ∈ active →
          ∃ j : ℕ, active[j]? = some t.run.name ∧ deleted r j t.run)) := by
  intro out active
  refine ⟨fun hdue => ?_, fun h hrep t ht hpres hmem => ?_, fun h id hid hlist hout t ht hname => ?_⟩
  · obtain ⟨p, cron, hprune, heq⟩ := hdue.fires
    obtain ⟨hspec, -, hactive⟩ := pruneSchedule_keeps hprune
    show (reconcileSchedule parse r s.object i sched).replaced = active
    rw [heq, fireSchedule_replaced, withNext_spec, hspec, if_pos hdue.policy, withNext_active,
      hactive]
  · obtain ⟨hout, suffix, hs, hnew⟩ := hrep.replaced
    have hlist : listsActive s.object t.run.name :=
      ⟨sched, Kube.Object.current_eq hrep.current hv, (pruneActiveList_sublist r _).subset hmem⟩
    by_contra hnot
    have hstay : (t.replace r active).present = true := by
      rw [← Bool.not_eq_false, replace_present]
      rintro (hgone | hdel)
      · exact absurd hpres (by rw [hgone]; decide)
      · exact hnot hdel
    have hunused := hn suffix hs _ (List.mem_map_of_mem ht) hstay
    have hrun : (t.replace r active).run = t.run := by
      unfold TrackedRun.replace
      split <;> rfl
    rw [hrun] at hunused
    have hfalse := h t.run.name (hout ▸ hmem) hlist
      (fun hl => (hnew _ hl).elim hunused.1 hunused.2) t ht rfl
    rw [show out.replaced = active from hout, hstay] at hfalse
    cases hfalse
  · have hrep := replaces_of_removed hid hlist hout
    have hreplaced := hrep.replaced.1
    rw [hreplaced] at hid ⊢
    rw [replace_present]
    by_cases hpres : t.present
    · exact .inr (h hrep t ht hpres (hname ▸ hid))
    · exact .inl (Bool.not_eq_true _ ▸ hpres)

/-- An active ChainRun is deleted and replaced. -/
theorem replaced_deleted_iff_deleted :
    let s := (minutely .replace).reconcile parseMinutes (repliesAt (60 * Cron.second) "a") 0
    let r := repliesAt (120 * Cron.second) "b"
    ∃ sched, s.object.versions[1]? = some sched ∧ sched.status.active = ["cr-a"] ∧
      (reconcileSchedule parseMinutes r s.object 1 sched).replaced = ["cr-a"] ∧
      ∀ id ∈ (reconcileSchedule parseMinutes r s.object 1 sched).replaced, listsActive s.object id →
        ¬ listsActive (reconcileSchedule parseMinutes r s.object 1 sched).object id →
        ∀ t ∈ s.runs, t.run.name = id → (t.replace r
          (reconcileSchedule parseMinutes r s.object 1 sched).replaced).present = false := by
  intro s r
  refine ⟨_, rfl, rfl, by decide, ?_⟩
  refine (replaced_deleted_iff parseMinutes r s 1 _ rfl ?_).2.2 fun _ t ht _ _ => ⟨0, ?_⟩
  · intro suffix hs t ht hpres
    rw [List.mem_singleton.1 ht] at hpres
    exact absurd hpres (by decide)
  · rw [List.mem_singleton.1 ht]
    decide

/-- The delete of an active ChainRun fails: the run is removed from the active list, and goes on
beside the one that replaces it. -/
theorem replaced_not_deleted :
    let s := (minutely .replace).reconcile parseMinutes (repliesAt (60 * Cron.second) "a") 0
    let r : ScheduleReplies := { repliesAt (120 * Cron.second) "b" with
      deleteChainRun := fun _ => .refused (.other "timeout") }
    listsActive s.object "cr-a" ∧ ¬ listsActive (s.reconcile parseMinutes r 1).object "cr-a" ∧
      (s.reconcile parseMinutes r 1).runs.map (fun t => (t.run.name, t.live)) =
        [("cr-a", true), ("cr-b", true)] := by
  intro s r
  refine ⟨⟨_, rfl, by decide⟩, ?_, by decide⟩
  rintro ⟨v, hv, hmem⟩
  have hactive : (s.reconcile parseMinutes r 1).object.current.map (·.status.active) =
      some ["cr-b"] := by decide
  rw [hv, Option.map_some, Option.some.injEq] at hactive
  rw [hactive] at hmem
  exact absurd hmem (by decide)

end Uncworks
