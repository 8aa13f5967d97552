import Uncworks.Controller.ScheduleRuns

/-!
# The times at which a Schedule fires

A Schedule over time, while no API call fails.  The history records for each created run the window of
activations it stands for, and the last moment at which activations were passed over, because the
Schedule was resumed then or an active run was in the way.
-/

namespace Uncworks

open List

/-! ## Reconciles without errors -/

structure ErrorFree (r : ScheduleReplies) (sched : Schedule) : Prop where
  created : ∃ suffix, r.create = .created suffix
  template : sched.spec.chainRef ≠ "" ∨ ∃ tmpl, r.template = .ok tmpl
  pruneUpdate : r.pruneUpdate = .ok
  update : r.update = .ok

section

variable (r : ScheduleReplies) (sched : Schedule) (cron : Cron)

def isDue : Bool :=
  !sched.spec.suspend && sched.hasTarget && decide (cron.next sched.lastScheduled ≤ r.now)

def findsActive : Bool :=
  sched.spec.concurrencyPolicy = .forbid && pruneActiveList r sched.status.active ≠ []

def firesNow : Bool := isDue r sched cron && !findsActive r sched

end

def reconcileStored (parse : String → Option Cron) (r : ScheduleReplies) (sched : Schedule) :
    ScheduleOutcome :=
  reconcileSchedule parse r { versions := [sched] } 0 sched

section ErrorFree

variable {parse : String → Option Cron} {r : ScheduleReplies} {sched : Schedule} {cron : Cron}

/-- The Schedule that a reconcile leaves behind, with the time from which activations are looked for
then. -/
def Leaves (out : ScheduleOutcome) (sched : Schedule) (last : ℕ) : Prop :=
  ∃ v, out.object.current = some v ∧ v.spec = sched.spec ∧ v.lastScheduled = last

/-- Without failures a reconcile fires and advances the last scheduled time, or creates nothing and
keeps it. -/
inductive FiredOrKept (fires : Prop) (r : ScheduleReplies) (sched : Schedule)
    (out : ScheduleOutcome) : Prop
  | fired (h : fires) (run : ScheduledRun) (hcreated : out.created = some run)
      (hleaves : Leaves out sched (Cron.truncate r.stamp))
  | kept (h : ¬ fires) (hcreated : out.created = none)
      (hleaves : Leaves out sched sched.lastScheduled)

theorem checkSchedule_errorFree {o i} (hcur : o.isCurrent i) (hv : o.versions[i]? = some sched)
    (hc : parse sched.spec.cron = some cron) (hr : ErrorFree r sched) :
    FiredOrKept (cron.next sched.lastScheduled ≤ r.now ∧
        ¬ (sched.spec.concurrencyPolicy = .forbid ∧ sched.status.active ≠ []))
      r sched (checkSchedule parse r o i sched) := by
  have hstores : r.update.stores := by
    rw [hr.update]
    rfl
  have hsched := Kube.Object.current_eq hcur hv
  have hout := checkSchedule_outcome parse r o i sched
  generalize checkSchedule parse r o i sched = out at hout ⊢
  cases hout with
  | invalid hnone =>
    rw [hc] at hnone
    cases hnone
  | early cron' hc' hdue =>
    obtain rfl : cron = cron' := Option.some.inj (hc.symm.trans hc')
    refine .kept (fun h => ?_) rfl ⟨sched.withNext (cron.next r.now), ?_, rfl, rfl⟩
    · omega
    · exact Kube.Object.current_write_of_stores hcur hstores
  | forbidden cron' hc' hdue hf ha =>
    exact .kept (fun h => h.2 ⟨hf, ha⟩) rfl ⟨sched, hsched, rfl, rfl⟩
  | fires cron' hc' hdue hf =>
    obtain rfl : cron = cron' := Option.some.inj (hc.symm.trans hc')
    obtain ⟨suffix, hs⟩ := hr.created
    obtain ⟨run, hrun, -⟩ :=
      createRun_created (sched.withNext (cron.next r.now)) hs hr.template
    obtain ⟨ho, hcreated⟩ := fireSchedule_ok (o := o) (i := i) hrun (cron.next r.now)
    refine .fired ⟨hdue, hf⟩ run hcreated ?_
    unfold Leaves
    rw [ho, Kube.Object.current_write_of_stores hcur hstores]
    exact ⟨_, rfl, rfl, rfl⟩

theorem reconcileStored_cases (hc : parse sched.spec.cron = some cron) (hr : ErrorFree r sched) :
    FiredOrKept (firesNow r sched cron) r sched (reconcileStored parse r sched) := by
  have hcur : ({ versions := [sched] } : Kube.Object Schedule).isCurrent 0 := rfl
  unfold reconcileStored reconcileSchedule
  by_cases hsus : sched.spec.suspend
  · rw [if_pos hsus]
    refine .kept ?_ rfl ⟨sched, rfl, rfl, rfl⟩
    simp [firesNow, isDue, hsus]
  by_cases htar : sched.hasTarget
  · have hpruned : ∃ p, pruneSchedule r { versions := [sched] } 0 sched = .ok p :=
      pruneSchedule_of_pruned (.inr ⟨hcur, hr.pruneUpdate⟩)
    obtain ⟨⟨object, index, pruned⟩, hprune⟩ := hpruned
    obtain ⟨hp, -⟩ := pruneSchedule_ok hprune
    subst hp
    have hfires : (cron.next (sched.withActive (pruneActiveList r sched.status.active)).lastScheduled
        ≤ r.now ∧ ¬ (sched.spec.concurrencyPolicy = .forbid ∧
          pruneActiveList r sched.status.active ≠ [])) ↔ firesNow r sched cron := by
      show cron.next sched.lastScheduled ≤ r.now ∧ _ ↔ _
      simp [firesNow, isDue, findsActive, hsus, htar, imp_iff_not_or]
    have hcheck := checkSchedule_errorFree (pruneSchedule_isCurrent hprune hcur)
      (pruneSchedule_read hprune rfl) hc ⟨hr.created, hr.template, hr.pruneUpdate, hr.update⟩
    rw [if_neg hsus, htar, hprune]
    cases hcheck with
    | fired h run hcreated hleaves => exact .fired (hfires.1 h) run hcreated hleaves
    | kept h hcreated hleaves => exact .kept (mt hfires.2 h) hcreated hleaves
  · rw [if_neg hsus, if_pos (by simpa using htar)]
    refine .kept ?_ rfl ⟨sched, rfl, rfl, rfl⟩
    simp [firesNow, isDue, htar]

end ErrorFree

/-! ## Histories -/

/-- The creation of a run: the time from which activations were looked for, the time of the check,
and up to when activations had been passed over. -/
structure Firing where
  last : ℕ
  now : ℕ
  handled : ℕ

/-- A Schedule over time.  `handled` is the last moment at which it was resumed, a run was skipped,
or an active run ended after that; `skipped` is set from a skip to the next created run. -/
structure ScheduleHistory where
  sched : Schedule
  clock : ℕ
  firings : List Firing := []
  handled : ℕ := 0
  skipped : Bool := false

namespace ScheduleHistory

def reconcile (parse : String → Option Cron) (cron : Cron) (r : ScheduleReplies)
    (s : ScheduleHistory) : ScheduleHistory :=
  let out := reconcileStored parse r s.sched
  let skips := isDue r s.sched cron && findsActive r s.sched
  { sched := out.object.current.getD s.sched
    clock := r.stamp
    firings := s.firings ++ out.created.toList.map fun _ =>
      { last := s.sched.lastScheduled, now := r.now, handled := s.handled }
    handled := if skips then r.now else s.handled
    skipped := skips || s.skipped && out.created.isNone }

def edit (spec : ScheduleSpec) (t : ℕ) (s : ScheduleHistory) : ScheduleHistory :=
  { s with
    sched := { s.sched with spec := spec }
    clock := t
    handled := if s.sched.spec.suspend then t else s.handled }

def runEnds (t : ℕ) (s : ScheduleHistory) : ScheduleHistory :=
  { s with
    clock := t
    handled := if s.skipped then t else s.handled }

/-- A step at a time that is not before the previous one; the reconciles and the edits meet a
condition. -/
inductive Step (parse : String → Option Cron) (cron : Cron)
    (allowed : ScheduleHistory → ScheduleReplies → Prop) (editable : ScheduleHistory → ℕ → Prop) :
    ScheduleHistory → ScheduleHistory → Prop
  | reconcile {s} (r : ScheduleReplies) (hr : ErrorFree r s.sched) (hnow : s.clock ≤ r.now)
      (hstamp : r.now ≤ r.stamp) (h : allowed s r) :
      Step parse cron allowed editable s (s.reconcile parse cron r)
  | edit {s} (spec : ScheduleSpec) (hc : spec.cron = s.sched.spec.cron) (t : ℕ) (ht : s.clock ≤ t)
      (h : editable s t) : Step parse cron allowed editable s (s.edit spec t)
  | runEnds {s} (t : ℕ) (ht : s.clock ≤ t) : Step parse cron allowed editable s (s.runEnds t)

def Reaches (parse : String → Option Cron) (cron : Cron)
    (allowed : ScheduleHistory → ScheduleReplies → Prop) (editable : ScheduleHistory → ℕ → Prop) :
    ScheduleHistory → ScheduleHistory → Prop :=
  Relation.ReflTransGen (Step parse cron allowed editable)

def created (name : String) (creationTimestamp : ℕ) (spec : ScheduleSpec) : ScheduleHistory where
  sched := { name := name, creationTimestamp := creationTimestamp, spec := spec }
  clock := creationTimestamp

section Runs

variable {parse : String → Option Cron} {cron : Cron} {r : ScheduleReplies}
  {allowed : ScheduleHistory → ScheduleReplies → Prop} {editable : ScheduleHistory → ℕ → Prop}
  {s s' : ScheduleHistory}

inductive Reconciled (cron : Cron) (r : ScheduleReplies) (s s' : ScheduleHistory) : Prop
  | fired (h : firesNow r s.sched cron)
      (hfirings : s'.firings = s.firings ++
        [{ last := s.sched.lastScheduled, now := r.now, handled := s.handled }])
      (hlast : s'.sched.lastScheduled = Cron.truncate r.stamp)
  | kept (h : ¬ firesNow r s.sched cron) (hfirings : s'.firings = s.firings)
      (hlast : s'.sched.lastScheduled = s.sched.lastScheduled)

theorem reconciled (hc : parse s.sched.spec.cron = some cron) (hr : ErrorFree r s.sched) :
    Reconciled cron r s (s.reconcile parse cron r) ∧
      (s.reconcile parse cron r).sched.spec = s.sched.spec := by
  unfold ScheduleHistory.reconcile
  dsimp only
  cases reconcileStored_cases hc hr with
  | fired h run hcreated hleaves =>
    obtain ⟨v, hv, hspec, hlast⟩ := hleaves
    rw [hcreated, hv]
    exact ⟨.fired h rfl hlast, hspec⟩
  | kept h hcreated hleaves =>
    obtain ⟨v, hv, hspec, hlast⟩ := hleaves
    rw [hcreated, hv]
    exact ⟨.kept h (append_nil _) hlast, hspec⟩

/-- The windows of the runs end before the activations that are still looked for, and no activation
is in two of them. -/
structure Windows (parse : String → Option Cron) (cron : Cron) (s : ScheduleHistory) : Prop where
  parsed : parse s.sched.spec.cron = some cron
  past : ∀ f ∈ s.firings, f.now ≤ s.clock
  passed : ∀ f ∈ s.firings, ∀ a, cron.Activation a → a ≤ f.now → a ≤ s.sched.lastScheduled
  disjoint : s.firings.Pairwise fun f g => ∀ a, cron.Activation a → f.last < a → a ≤ f.now →
    ¬ (g.last < a ∧ a ≤ g.now)

theorem Windows.step (h : Windows parse cron s) (hs : Step parse cron allowed editable s s') :
    Windows parse cron s' := by
  cases hs with
  | edit spec hc t ht =>
    refine ⟨?_, fun f hf => (h.past f hf).trans ht, h.passed, h.disjoint⟩
    show parse spec.cron = some cron
    rw [hc]
    exact h.parsed
  | runEnds t ht => exact ⟨h.parsed, fun f hf => (h.past f hf).trans ht, h.passed, h.disjoint⟩
  | reconcile r hr hnow hstamp =>
    obtain ⟨hrec, hspec⟩ := reconciled h.parsed hr
    have hparsed : parse (s.reconcile parse cron r).sched.spec.cron = some cron := by
      rw [hspec]
      exact h.parsed
    have hclock : (s.reconcile parse cron r).clock = r.stamp := rfl
    have hpast : ∀ f ∈ s.firings, f.now ≤ r.stamp := fun f hf => by
      have := h.past f hf
      omega
    cases hrec with
    | kept hno hfirings hlast =>
      refine ⟨hparsed, ?_, ?_, ?_⟩
      · rw [hfirings]
        exact hpast
      · rw [hfirings, hlast]
        exact h.passed
      · rw [hfirings]
        exact h.disjoint
    | fired hfires hfirings hlast =>
      have hpast' : ∀ f ∈ (s.reconcile parse cron r).firings, f.now ≤ r.stamp := by
        rw [hfirings]
        intro f hf
        rcases mem_append.1 hf with hf | hf
        · exact hpast f hf
        · rw [mem_singleton.1 hf]
          exact hstamp
      refine ⟨hparsed, hpast', fun f hf a ha hle => ?_, ?_⟩
      · rw [hlast]
        exact Cron.le_truncate (cron.whole a ha) (hle.trans (hpast' f hf))
      · rw [hfirings, pairwise_append]
        refine ⟨h.disjoint, pairwise_singleton _ _, fun f hf g hg a ha _ hle hin => ?_⟩
        rw [mem_singleton.1 hg] at hin
        have := h.passed f hf a ha hle
        have := hin.1
        dsimp only at this
        omega

theorem Windows.reaches (h : Windows parse cron s) (hs : Reaches parse cron allowed editable s s') :
    Windows parse cron s' := by
  induction hs with
  | refl => exact h
  | tail _ hstep ih => exact ih.step hstep

theorem windows_created {name creationTimestamp spec} (hc : parse spec.cron = some cron) :
    Windows parse cron (created name creationTimestamp spec) where
  parsed := hc
  past _ hf := by cases hf
  passed _ hf := by cases hf
  disjoint := List.Pairwise.nil

/-- Each firing of a run has a property that follows from an invariant and the condition on the
reconciles. -/
theorem firings_reaches (Good : Firing → Prop) (Inv : ScheduleHistory → Prop)
    (h0 : Windows parse cron s) (hinv0 : Inv s) (hf : ∀ f ∈ s.firings, Good f)
    (hinv : ∀ s s', Windows parse cron s → Inv s → Step parse cron allowed editable s s' → Inv s')
    (hgood : ∀ s r, Inv s → allowed s r → firesNow r s.sched cron →
      Good { last := s.sched.lastScheduled, now := r.now, handled := s.handled })
    (hs : Reaches parse cron allowed editable s s') : Inv s' ∧ ∀ f ∈ s'.firings, Good f := by
  induction hs with
  | refl => exact ⟨hinv0, hf⟩
  | @tail t u htu hstep ih =>
    have hw := h0.reaches htu
    refine ⟨hinv t u hw ih.1 hstep, ?_⟩
    cases hstep with
    | edit | runEnds => exact ih.2
    | reconcile r hr hnow hstamp hallowed =>
      cases (reconciled hw.parsed hr).1 with
      | kept hno hfirings hlast =>
        rw [hfirings]
        exact ih.2
      | fired hfires hfirings hlast =>
        rw [hfirings]
        intro f hf
        rcases mem_append.1 hf with hf | hf
        · exact ih.2 f hf
        · rw [mem_singleton.1 hf]
          exact hgood t r ih.1 hallowed hfires

theorem firesNow_isDue (h : firesNow r s.sched cron) : isDue r s.sched cron :=
  (Bool.and_eq_true_iff.1 h).1

theorem firesNow_due (h : firesNow r s.sched cron) : cron.next s.sched.lastScheduled ≤ r.now := by
  have hdue := firesNow_isDue h
  simp only [isDue, Bool.and_eq_true, decide_eq_true_eq] at hdue
  exact hdue.2

structure NonePassed (cron : Cron) (s : ScheduleHistory) : Prop where
  past : s.handled ≤ s.clock
  unskipped : s.skipped = false
  clear : ∀ a, cron.Activation a → s.sched.lastScheduled < a → s.handled < a

/-- A run that is due is not skipped, and there is an activation for it. -/
def NotSkipped (cron : Cron) (s : ScheduleHistory) (r : ScheduleReplies) : Prop :=
  isDue r s.sched cron → ¬ findsActive r s.sched ∧ cron.next s.sched.lastScheduled ≠ 0

def NoneMissed (cron : Cron) (s : ScheduleHistory) (t : ℕ) : Prop :=
  s.sched.spec.suspend → ∀ a, cron.Activation a → s.sched.lastScheduled < a → t < a

theorem NonePassed.step (h : NonePassed cron s) (hw : Windows parse cron s)
    (hs : Step parse cron (NotSkipped cron) (NoneMissed cron) s s') : NonePassed cron s' := by
  cases hs with
  | edit spec hc t ht hedit =>
    by_cases hsus : s.sched.spec.suspend
    · have hhandled : (s.edit spec t).handled = t := if_pos hsus
      refine ⟨?_, h.unskipped, ?_⟩
      · rw [hhandled]
        exact le_rfl
      · rw [hhandled]
        exact hedit hsus
    · have hhandled : (s.edit spec t).handled = s.handled := if_neg hsus
      refine ⟨?_, h.unskipped, ?_⟩
      · rw [hhandled]
        exact h.past.trans ht
      · rw [hhandled]
        exact h.clear
  | runEnds t ht =>
    have hhandled : (s.runEnds t).handled = s.handled := by
      simp [ScheduleHistory.runEnds, h.unskipped]
    refine ⟨?_, h.unskipped, ?_⟩
    · rw [hhandled]
      exact h.past.trans ht
    · rw [hhandled]
      exact h.clear
  | reconcile r hr hnow hstamp hallowed =>
    have hskips : (isDue r s.sched cron && findsActive r s.sched) = false := by
      by_cases hdue : isDue r s.sched cron
      · rw [Bool.eq_false_of_not_eq_true (hallowed hdue).1, Bool.and_false]
      · rw [Bool.eq_false_of_not_eq_true hdue, Bool.false_and]
    have hhandled : (s.reconcile parse cron r).handled = s.handled := by
      simp [ScheduleHistory.reconcile, hskips]
    have hskipped : (s.reconcile parse cron r).skipped = false := by
      simp [ScheduleHistory.reconcile, hskips, h.unskipped]
    have hclock : (s.reconcile parse cron r).clock = r.stamp := rfl
    have hpast := (h.past.trans hnow).trans hstamp
    refine ⟨?_, hskipped, ?_⟩
    · rw [hhandled]
      exact hpast
    · rw [hhandled]
      cases (reconciled hw.parsed hr).1 with
      | kept hno hfirings hlast =>
        rw [hlast]
        exact h.clear
      | fired hfires hfirings hlast =>
        -- the stored time is not before any activation up to the time of the run
        intro a ha hlt
        by_contra hle
        have := Cron.le_truncate (cron.whole a ha) (show a ≤ r.stamp by omega)
        omega

end Runs

end ScheduleHistory

/-! ## The results -/

/-- If no call fails and no reconcile fires with the zero time, each created run has an activation
in its window, and no activation is in two windows.  A reconcile that fires with the zero time
creates a run without an activation, unless five years have passed. -/
theorem fires_on_activation (parse : String → Option Cron) (cron : Cron) (name : String)
    (creationTimestamp : ℕ) (spec : ScheduleSpec) (hc : parse spec.cron = some cron) :
    (∀ s, ScheduleHistory.Reaches parse cron
        (fun s r => firesNow r s.sched cron → cron.next s.sched.lastScheduled ≠ 0)
        (fun _ _ => True) (.created name creationTimestamp spec) s →
      (∀ f ∈ s.firings, ∃ a, cron.Activation a ∧ f.last < a ∧ a ≤ f.now) ∧
      (s.firings.Pairwise fun f g => ∀ a, cron.Activation a → f.last < a → a ≤ f.now →
        ¬ (g.last < a ∧ a ≤ g.now)) ∧
      ((∀ a, ¬ cron.Activation a) → s.firings = [])) ∧
    ∀ s, ScheduleHistory.Reaches parse cron (fun _ _ => True) (fun _ _ => True)
        (.created name creationTimestamp spec) s →
      ∀ r, ErrorFree r s.sched → firesNow r s.sched cron → cron.next s.sched.lastScheduled = 0 →
        r.now ≤ s.sched.lastScheduled + Cron.fiveYears →
        ∃ f ∈ (s.reconcile parse cron r).firings,
          ¬ ∃ a, cron.Activation a ∧ f.last < a ∧ a ≤ f.now := by
  have h0 : ScheduleHistory.Windows parse cron (.created name creationTimestamp spec) :=
    ScheduleHistory.windows_created hc
  refine ⟨fun s hs => ?_, fun s hs r hr hfires hzero hnow => ?_⟩
  · have hgood : ∀ f ∈ s.firings, ∃ a, cron.Activation a ∧ f.last < a ∧ a ≤ f.now := by
      refine (ScheduleHistory.firings_reaches
        (fun f => ∃ a, cron.Activation a ∧ f.last < a ∧ a ≤ f.now) (fun _ => True) h0 trivial
        (fun f hf => ?_) (fun _ _ _ _ _ => trivial) (fun t r _ hne hfires => ?_) hs).2
      · cases hf
      · exact ⟨_, cron.next_activation _ (hne hfires), cron.lt_next _ (hne hfires),
          ScheduleHistory.firesNow_due hfires⟩
    refine ⟨hgood, (h0.reaches hs).disjoint, fun hnone => ?_⟩
    refine eq_nil_iff_forall_not_mem.2 fun f hf => ?_
    obtain ⟨a, ha, -⟩ := hgood f hf
    exact hnone a ha
  · cases (ScheduleHistory.reconciled (h0.reaches hs).parsed hr).1 with
    | kept hno => exact absurd hfires hno
    | fired _ hfirings =>
      rw [hfirings]
      refine ⟨_, mem_append_right _ (mem_singleton_self _), ?_⟩
      rintro ⟨a, ha, hlt, hle⟩
      have := cron.next_zero _ a hzero ha hlt
      dsimp only at hle
      omega

/-- A run every minute: the first reconcile fires, a second one in the same minute does not. -/
theorem fires_on_activation_minutely :
    let s := ((ScheduleHistory.created "minutely" 0 (minutelySpec .allow)).reconcile parseMinutes
      .everyMinute (repliesAt (61 * Cron.second) "a")).reconcile parseMinutes
      .everyMinute (repliesAt (62 * Cron.second) "b")
    s.firings.length = 1 ∧
      ∀ f ∈ s.firings, ∃ a, Cron.everyMinute.Activation a ∧ f.last < a ∧ a ≤ f.now := by
  refine ⟨by decide, ?_⟩
  refine ((fires_on_activation parseMinutes .everyMinute "minutely" 0 (minutelySpec .allow) rfl).1 _
    (.tail (.single (.reconcile (repliesAt (61 * Cron.second) "a") ⟨⟨"a", rfl⟩, ?_, rfl, rfl⟩
        ?_ le_rfl ?_))
      (.reconcile (repliesAt (62 * Cron.second) "b") ⟨⟨"b", rfl⟩, ?_, rfl, rfl⟩ ?_ le_rfl ?_))).1
  · exact .inl (by decide)
  · decide
  · decide
  · exact .inl (by decide)
  · decide
  · decide

/-- An expression without activations fires at every reconcile. -/
theorem fires_without_activation :
    ∃ s, ScheduleHistory.Reaches (fun _ => some .never) .never (fun _ _ => True) (fun _ _ => True)
        (.created "never" 0 { minutelySpec .allow with cron := "0 0 30 2 *" }) s ∧
      s.firings.length = 2 ∧ ∀ a, ¬ Cron.never.Activation a := by
  refine ⟨_, .tail (.single (.reconcile (repliesAt Cron.second "a") ⟨⟨"a", rfl⟩, ?_, rfl, rfl⟩
      (Nat.zero_le _) le_rfl trivial))
    (.reconcile (repliesAt (2 * Cron.second) "b") ⟨⟨"b", rfl⟩, ?_, rfl, rfl⟩ ?_ le_rfl trivial),
    ?_, fun a ha => ha⟩
  · exact .inl (by decide)
  · exact .inl (by decide)
  · decide
  · decide

/-- If no call fails, no due run is skipped and none is due when a suspended Schedule is resumed,
each run is created for an activation that was not passed over.  In any run a reconcile fires for
such an activation exactly if none that is still looked for has been passed over. -/
theorem fires_after_handled (parse : String → Option Cron) (cron : Cron) (name : String)
    (creationTimestamp : ℕ) (spec : ScheduleSpec) (hc : parse spec.cron = some cron) :
    let Good : Firing → Prop := fun f => cron.Activation (cron.next f.last) ∧
      f.handled < cron.next f.last ∧ cron.next f.last ≤ f.now
    (∀ s, ScheduleHistory.Reaches parse cron (ScheduleHistory.NotSkipped cron)
        (ScheduleHistory.NoneMissed cron) (.created name creationTimestamp spec) s →
      ∀ f ∈ s.firings, Good f) ∧
    ∀ s, ScheduleHistory.Reaches parse cron (fun _ _ => True) (fun _ _ => True)
        (.created name creationTimestamp spec) s →
      ∀ r, ErrorFree r s.sched → ∀ f, (s.reconcile parse cron r).firings = s.firings ++ [f] →
        (Good f ↔ cron.next s.sched.lastScheduled ≠ 0 ∧
          ∀ a, cron.Activation a → s.sched.lastScheduled < a → s.handled < a) := by
  intro Good
  have h0 : ScheduleHistory.Windows parse cron (.created name creationTimestamp spec) :=
    ScheduleHistory.windows_created hc
  refine ⟨fun s hs => ?_, fun s hs r hr f hf => ?_⟩
  · refine (ScheduleHistory.firings_reaches Good (ScheduleHistory.NonePassed cron) h0
      ⟨Nat.zero_le _, rfl, fun a _ ha => Nat.zero_lt_of_lt ha⟩ (fun f hf => ?_)
      (fun s s' hw hn hstep => hn.step hw hstep) (fun t r hn hns hfires => ?_) hs).2
    · cases hf
    · have hne := (hns (ScheduleHistory.firesNow_isDue hfires)).2
      exact ⟨cron.next_activation _ hne, (cron.lt_next_iff hne).2 hn.clear,
        ScheduleHistory.firesNow_due hfires⟩
  · cases (ScheduleHistory.reconciled (h0.reaches hs).parsed hr).1 with
    | kept hno hfirings =>
      rw [hfirings] at hf
      simp at hf
    | fired hfires hfirings =>
      rw [hfirings, append_cancel_left_eq, singleton_inj] at hf
      subst hf
      constructor
      · rintro ⟨-, hhandled, -⟩
        have hne : cron.next s.sched.lastScheduled ≠ 0 := by
          dsimp only at hhandled
          omega
        exact ⟨hne, (cron.lt_next_iff hne).1 hhandled⟩
      · rintro ⟨hne, hclear⟩
        exact ⟨cron.next_activation _ hne, (cron.lt_next_iff hne).2 hclear,
          ScheduleHistory.firesNow_due hfires⟩

/-- A Schedule is suspended and resumed between two activations. -/
theorem fires_after_handled_resumed :
    let s := (((ScheduleHistory.created "minutely" 0 (minutelySpec .forbid)).edit
      { minutelySpec .forbid with suspend := true } (10 * Cron.second)).edit
      (minutelySpec .forbid) (20 * Cron.second)).reconcile parseMinutes .everyMinute
      (repliesAt (61 * Cron.second) "a")
    s.firings.map Firing.handled = [20 * Cron.second] ∧
      ∀ f ∈ s.firings, Cron.everyMinute.Activation (Cron.everyMinute.next f.last) ∧
        f.handled < Cron.everyMinute.next f.last ∧ Cron.everyMinute.next f.last ≤ f.now := by
  refine ⟨by decide, ?_⟩
  refine (fires_after_handled parseMinutes .everyMinute "minutely" 0 (minutelySpec .forbid) rfl).1 _
    (.tail (.tail (.single (.edit { minutelySpec .forbid with suspend := true } rfl
        (10 * Cron.second) (Nat.zero_le _) ?_))
      (.edit (minutelySpec .forbid) rfl (20 * Cron.second) ?_ ?_))
      (.reconcile (repliesAt (61 * Cron.second) "a") ⟨⟨"a", rfl⟩, ?_, rfl, rfl⟩ ?_ le_rfl ?_))
  · intro hsus
    cases hsus
  · decide
  · rintro - a ⟨hpos, hmin⟩ -
    unfold Cron.second at hmin ⊢
    omega
  · exact .inl (by decide)
  · decide
  · exact fun _ => ⟨by decide, by decide⟩

/-- A run is created for an activation while the Schedule was suspended, and one for an activation
that was skipped. -/
theorem fires_for_handled :
    (∃ s, ScheduleHistory.Reaches parseMinutes .everyMinute (fun _ _ => True) (fun _ _ => True)
        (.created "minutely" 0 (minutelySpec .forbid)) s ∧
      s.firings.map (fun f => (Cron.everyMinute.next f.last, f.handled, f.now)) =
        [(60 * Cron.second, 90 * Cron.second, 91 * Cron.second)]) ∧
    ∃ s, ScheduleHistory.Reaches parseMinutes .everyMinute (fun _ _ => True) (fun _ _ => True)
        (.created "minutely" 0 (minutelySpec .forbid)) s ∧
      s.firings.map (fun f => (Cron.everyMinute.next f.last, f.handled, f.now)) =
        [(60 * Cron.second, 0, 61 * Cron.second),
          (120 * Cron.second, 150 * Cron.second, 151 * Cron.second)] := by
  constructor
  · refine ⟨_, .tail (.tail (.single
      (.edit { minutelySpec .forbid with suspend := true } rfl (30 * Cron.second) ?_ trivial))
      (.edit (minutelySpec .forbid) rfl (90 * Cron.second) ?_ trivial))
      (.reconcile (repliesAt (91 * Cron.second) "a") ⟨⟨"a", rfl⟩, ?_, rfl, rfl⟩ ?_ le_rfl trivial), ?_⟩
    · exact Nat.zero_le _
    · decide
    · exact .inl (by decide)
    · decide
    · decide
  · let r : ScheduleReplies :=
      { repliesAt (151 * Cron.second) "b" with chainRun := fun _ => .ok .succeeded }
    refine ⟨_, .tail (.tail (.tail (.single
      (.reconcile (repliesAt (61 * Cron.second) "a") ⟨⟨"a", rfl⟩, ?_, rfl, rfl⟩ ?_ le_rfl trivial))
      (.reconcile (repliesAt (121 * Cron.second) "b") ⟨⟨"b", rfl⟩, ?_, rfl, rfl⟩ ?_ le_rfl trivial))
      (.runEnds (150 * Cron.second) ?_))
      (.reconcile r ⟨⟨"b", rfl⟩, ?_, rfl, rfl⟩ ?_ le_rfl trivial), ?_⟩
    · exact .inl (by decide)
    · exact Nat.zero_le _
    · exact .inl (by decide)
    · decide
    · decide
    · exact .inl (by decide)
    · decide
    · decide

end Uncworks
