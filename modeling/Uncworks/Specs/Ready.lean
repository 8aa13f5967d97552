import Uncworks.Specs.Rubric
import Uncworks.Specs.Tasks
import Mathlib.Order.WellFoundedSet

/-!
# What can be worked on now

`next` answers for the first phase that has an unfinished task: the tasks that wait for nothing are
ready, the others are blocked.  It resolves an identifier to the last task declared with it.
-/

namespace Uncworks.Specutil

open List

structure Checkbox extends Task where
  text : String := ""
  done : Bool := false
  line : ℕ := 0
  writes : List String := []
  deriving DecidableEq, Repr

structure Phase where
  number : ℕ
  name : String := ""
  line : ℕ := 0
  markers : String → String := fun _ => ""
  tasks : List Checkbox

structure Blocked where
  id : String
  waiting : List String
  deriving DecidableEq, Repr

structure Ready where
  change : String
  phase : ℕ := 0
  name : String := ""
  shape : String := ""
  stop : String := ""
  merge : String := ""
  tasks : List Checkbox := []
  blocked : List Blocked := []
  concurrent : Bool := false
  done : Bool := true

/-- The maps `known` and `done`, filled in the order of the tasks. -/
def doneOf (tasks : List Checkbox) : String → Option Bool :=
  tasks.foldl
    (fun done task => if task.id ≠ "" then Function.update done task.id (some task.done) else done)
    fun _ => none

def waitingOn (tasks : List Checkbox) (task : Checkbox) : List String :=
  task.deps.filter fun dep => doneOf tasks dep = some false

section

variable (lib : Lib)

def isGate (text : String) : Bool :=
  let lowered := lib.toLower (Go.trimSpace text)
  Go.hasPrefix lowered "apply:" || Go.hasPrefix lowered "confirm:"

/-- `reviewRE`, at one place of the text. -/
def startsReview (s : List Char) : Bool :=
  let fold := List.map lib.foldRune
  let rest := s.drop 11
  fold (s.take 11) = fold "adversarial".toList ∧ rest.head?.any reSpace ∧
    fold ((rest.dropWhile reSpace).take 6) = fold "review".toList

def isReview (text : String) : Bool := text.toList.tails.any (startsReview lib)

def openPhase (phases : List Phase) : Option Phase :=
  phases.find? fun phase => phase.tasks.any fun task => !task.done

def next (change : String) (phases : List Phase) : Except String Ready :=
  match openPhase phases with
  | none => .ok { change := change }
  | some phase =>
    let cycle := (findCycle (phase.tasks.map Checkbox.toTask)).getD []
    if cycle ≠ [] then
      .error (s!"task dependencies form a cycle in phase {phase.number}: " ++
        " -> ".intercalate cycle)
    else
      let unfinished := phase.tasks.filter fun task => !task.done
      let ready := unfinished.filter fun task => waitingOn phase.tasks task = []
      let blocked := unfinished.filter fun task => !decide (waitingOn phase.tasks task = [])
      .ok
        { change := change, phase := phase.number, name := phase.name
          shape := phase.markers "shape", stop := phase.markers "stop"
          merge := phase.markers "merge"
          tasks := ready
          blocked := blocked.map fun task => ⟨task.id, waitingOn phase.tasks task⟩
          concurrent := phase.markers "shape" = "graph" ∧ 1 < ready.length ∧
            ∀ task ∈ ready, ¬ (isGate lib task.text ∨ isReview lib task.text)
          done := false }

/-- The identifiers of the ready tasks that declare a path, and whether they conflict. -/
def owners (ready : Ready) (path : String) : List String :=
  ready.tasks.flatMap fun task => (task.writes.filter (· = path)).map fun _ => task.id

def writeConflicts (ready : Ready) (path : String) : Option (List String) :=
  if 1 < (owners ready path).length then some (owners ready path) else none

/-- The rules of the rubric about the tasks of one phase, which the scheduler relies on. -/
def checkPhaseGraph (path : String) (phase : Phase) : List Finding :=
  let finding := fun rule line message =>
    { rule := rule, severity := .error, file := path, line := line, message := message : Finding }
  let cycle := (findCycle (phase.tasks.map Checkbox.toTask)).getD []
  (phase.tasks.flatMap fun task =>
    if task.id = "" then
      [finding "task-id-required" task.line
        ("the task " ++ lib.quote (truncate task.text 60) ++ " carries no N.M identifier")]
    else if (Go.split '.' task.id).head? ≠ some (toString phase.number) then
      [finding "task-id-matches-phase" task.line s!"task {task.id} sits in phase {phase.number}"]
    else []) ++
  (phase.tasks.flatMap fun task =>
    (task.deps.filter fun dep => doneOf phase.tasks dep = none).map fun dep =>
      finding "task-deps-resolve" task.line
        (s!"task {task.id} depends on {dep}, which is not a task in phase {phase.number}. " ++
          "A cross-phase edge means the phase boundary is in the wrong place")) ++
  if cycle = [] then []
  else [finding "task-deps-acyclic" phase.line
    (s!"phase {phase.number} has a dependency cycle: " ++ " -> ".intercalate cycle)]

def checkTaskGraph (change : Change) (phases : List Phase) : List Finding :=
  match change.artifacts "tasks" with
  | none => []
  | some tasks => phases.flatMap (checkPhaseGraph lib tasks.path)

end

/-! ## Progress -/

section Progress

variable {lib : Lib} {change : String} {phases : List Phase} {ready : Ready}
  {tasks : List Checkbox} {id : String}

theorem doneOf_cases (tasks : List Checkbox) (id : String) :
    (doneOf tasks id = none ∧ depsOf (tasks.map Checkbox.toTask) id = none) ∨
      ∃ task ∈ tasks, task.id = id ∧ doneOf tasks id = some task.done ∧
        depsOf (tasks.map Checkbox.toTask) id = some task.deps := by
  induction tasks using reverseRecOn with
  | nil => exact .inl ⟨rfl, rfl⟩
  | append_singleton tasks task ih =>
    have hdone : doneOf (tasks ++ [task]) id =
        if task.id ≠ "" ∧ id = task.id then some task.done else doneOf tasks id := by
      unfold doneOf
      rw [foldl_append, foldl_cons, foldl_nil]
      by_cases hempty : task.id ≠ ""
      · rw [if_pos hempty, Function.update_apply]
        simp [hempty]
      · simp [hempty]
    rw [map_append, map_singleton, depsOf_append_singleton, hdone]
    split
    · next h => exact .inr ⟨task, by simp, h.2.symm, rfl, rfl⟩
    · rcases ih with h | ⟨found, hfound, h⟩
      · exact .inl h
      · exact .inr ⟨found, mem_append_left _ hfound, h⟩

/-- Where every unfinished task waits, an unfinished identifier depends on another one. -/
theorem exists_dependsOn (hall : ∀ task ∈ tasks, task.done = false → waitingOn tasks task ≠ [])
    (hid : doneOf tasks id = some false) :
    ∃ dep, DependsOn (tasks.map Checkbox.toTask) id dep ∧ doneOf tasks dep = some false := by
  rcases doneOf_cases tasks id with ⟨hnone, -⟩ | ⟨task, hmem, -, hdone, hdeps⟩
  · cases hnone.symm.trans hid
  · have hopen := Option.some.inj (hdone.symm.trans hid)
    obtain ⟨dep, hdep⟩ := exists_mem_of_ne_nil _ (hall task hmem hopen)
    obtain ⟨hdep, hwait⟩ := mem_filter.1 hdep
    have hwait := of_decide_eq_true hwait
    refine ⟨dep, mem_knownDeps_iff.1 (mem_filter.2 ⟨by rwa [hdeps], ?_⟩), hwait⟩
    rcases doneOf_cases tasks dep with ⟨hnone, -⟩ | ⟨_, -, -, -, hknown⟩
    · cases hnone.symm.trans hwait
    · simp [hknown]

/-- Without a cycle the dependencies are well founded on the unfinished identifiers, and a least one
waits for nothing. -/
theorem exists_not_waiting (hacyclic : ¬ DepthFirst.Cyclic (DependsOn (tasks.map Checkbox.toTask)))
    (hopen : ∃ task ∈ tasks, task.done = false) :
    ∃ task ∈ tasks, task.done = false ∧ waitingOn tasks task = [] := by
  by_contra hnone
  push Not at hnone
  let below (a b : String) := Relation.TransGen (DependsOn (tasks.map Checkbox.toTask)) b a
  have : IsStrictOrder String below :=
    { irrefl := fun a ha => hacyclic ⟨a, ha⟩
      trans := fun _ _ _ hab hbc => hbc.trans hab }
  let undone := {id | doneOf tasks id = some false}
  have hfinite : undone.Finite := by
    refine ((tasks.map (·.id)).finite_toSet).subset fun id hid => ?_
    rcases doneOf_cases tasks id with ⟨hnone, -⟩ | ⟨task, hmem, rfl, -⟩
    · cases hnone.symm.trans hid
    · show task.id ∈ tasks.map (·.id)
      exact mem_map_of_mem hmem
  have hstart : undone.Nonempty := by
    obtain ⟨task, hmem, hdone⟩ := hopen
    obtain ⟨dep, hdep⟩ := exists_mem_of_ne_nil _ (hnone task hmem hdone)
    exact ⟨dep, of_decide_eq_true (mem_filter.1 hdep).2⟩
  obtain ⟨⟨id, hid⟩, -, hleast⟩ := (hfinite.wellFoundedOn (r := below)).has_min Set.univ
    ⟨⟨_, hstart.some_mem⟩, trivial⟩
  obtain ⟨dep, hdep, hundone⟩ := exists_dependsOn hnone hid
  exact hleast ⟨dep, hundone⟩ trivial (.single hdep)

theorem openPhase_eq_some {phase} (h : openPhase phases = some phase) :
    (∃ task ∈ phase.tasks, task.done = false) ∧ ∃ pre post, phases = pre ++ phase :: post ∧
      ∀ earlier ∈ pre, ∀ task ∈ earlier.tasks, task.done := by
  obtain ⟨hopen, pre, post, rfl, hpre⟩ := find?_eq_some_iff_append.1 h
  refine ⟨by simpa using hopen, pre, post, rfl, fun earlier hmem => ?_⟩
  simpa using hpre earlier hmem

/-- `next` of a change with open work, when it reports no cycle: something is ready, and the ready and
the blocked tasks are together the unfinished tasks of the first phase that has one. -/
theorem next_progress (hnext : next lib change phases = .ok ready) (hopen : ready.done = false) :
    ready.tasks ≠ [] ∧ ∃ pre phase post, phases = pre ++ phase :: post ∧
      (∀ earlier ∈ pre, ∀ task ∈ earlier.tasks, task.done) ∧ ready.phase = phase.number ∧
      ∃ held, ready.blocked = held.map (fun task => ⟨task.id, waitingOn phase.tasks task⟩) ∧
        (ready.tasks ++ held).Perm (phase.tasks.filter fun task => !task.done) := by
  unfold next at hnext
  split at hnext
  · obtain rfl := Except.ok.inj hnext
    cases hopen
  · next phase hphase =>
    obtain ⟨hunfinished, pre, post, hphases, hpre⟩ := openPhase_eq_some hphase
    obtain ⟨cycle, hcycle, hcases⟩ := findCycle_cases (phase.tasks.map Checkbox.toTask)
    simp only [hcycle] at hnext
    split_ifs at hnext with hne
    obtain rfl := Except.ok.inj hnext
    have hacyclic := (hcases.resolve_right fun hclosed => hne (by
      rintro rfl
      exact absurd hclosed.length (by simp))).2
    obtain ⟨task, hmem, hdone, hwaiting⟩ := exists_not_waiting hacyclic hunfinished
    refine ⟨ne_nil_of_mem (mem_filter.2 ⟨mem_filter.2 ⟨hmem, by simp [hdone]⟩, by simp [hwaiting]⟩),
      pre, phase, post, hphases, hpre, rfl, _, rfl, filter_append_perm _ _⟩

/-! ## Safety -/

/-- The task names the other one, or a task with its identifier, as a dependency. -/
def Needs (tasks : List Checkbox) (task other : Checkbox) : Prop :=
  other ∈ tasks ∧ other.id ≠ "" ∧ other.id ∈ task.deps

/-- No ready task needs, directly or through others, a task that is not done. -/
def Ready.Independent (ready : Ready) (tasks : List Checkbox) : Prop :=
  ∀ task ∈ ready.tasks, ∀ other, Relation.TransGen (Needs tasks) task other → other.done

def Shared (tasks : List Checkbox) (path : String) : Prop :=
  ∃ task other, [task, other] <+ tasks ∧ path ∈ task.writes ∧ path ∈ other.writes

/-- The tasks that are not done and whose dependencies were all checked off where they were declared
last. -/
def startable (tasks : List Checkbox) : List Checkbox :=
  tasks.filter fun task => !task.done && task.deps.all fun dep => doneOf tasks dep ≠ some false

theorem tasks_of_next {phase} (hphase : openPhase phases = some phase)
    (hnext : next lib change phases = .ok ready) : ready.tasks = startable phase.tasks := by
  simp only [next, hphase] at hnext
  split_ifs at hnext
  obtain rfl := Except.ok.inj hnext
  simp [startable, waitingOn, filter_filter, Bool.and_comm, List.all_eq]

/-- The dependencies that lead to a task that is checked off. -/
def Checked (tasks : List Checkbox) (task other : Checkbox) : Prop :=
  Needs tasks task other ∧ other.done

/-- What makes the answer of `next` safe.  From a startable task, through tasks that are checked off,
the dependencies lead to no task that is not; and a path that a startable task lists twice is declared
by another one too. -/
structure Orderly (tasks : List Checkbox) : Prop where
  checked : ∀ task ∈ startable tasks, ∀ last, Relation.ReflTransGen (Checked tasks) task last →
    ∀ other, Needs tasks last other → other.done
  writes : ∀ path, (∃ task ∈ startable tasks, 2 ≤ task.writes.count path) →
    Shared (startable tasks) path

theorem forall_needs_iff {task} :
    (∀ other, Relation.TransGen (Needs tasks) task other → other.done) ↔
      ∀ last, Relation.ReflTransGen (Checked tasks) task last →
        ∀ other, Needs tasks last other → other.done := by
  constructor
  · intro hdone last hlast other hneeds
    have hpath := Relation.ReflTransGen.mono (fun _ _ hchecked => hchecked.1) _ _ hlast
    exact hdone other (Relation.TransGen.tail' hpath hneeds)
  · intro hlast other hpath
    have hchecked : Relation.TransGen (Checked tasks) task other := by
      induction hpath with
      | single hneeds => exact .single ⟨hneeds, hlast _ .refl _ hneeds⟩
      | tail _ hneeds ih => exact ih.tail ⟨hneeds, hlast _ ih.to_reflTransGen _ hneeds⟩
    obtain ⟨_, -, hstep⟩ := Relation.TransGen.tail'_iff.1 hchecked
    exact hstep.2

theorem shared_cons_iff {task path} : Shared (task :: tasks) path ↔
    Shared tasks path ∨ path ∈ task.writes ∧ ∃ other ∈ tasks, path ∈ other.writes := by
  constructor
  · rintro ⟨a, b, hsub, ha, hb⟩
    cases hsub with
    | cons _ hsub => exact .inl ⟨a, b, hsub, ha, hb⟩
    | cons_cons _ hsub => exact .inr ⟨ha, b, singleton_sublist.1 hsub, hb⟩
  · rintro (⟨a, b, hsub, ha, hb⟩ | ⟨hpath, other, hmem, hother⟩)
    · exact ⟨a, b, hsub.cons _, ha, hb⟩
    · exact ⟨task, other, (singleton_sublist.2 hmem).cons_cons _, hpath, hother⟩

theorem two_le_count_iff {path} : 2 ≤ (tasks.flatMap (·.writes)).count path ↔
    Shared tasks path ∨ ∃ task ∈ tasks, 2 ≤ task.writes.count path := by
  induction tasks with
  | nil => simp [Shared]
  | cons task tasks ih =>
    have hrest : 0 < (tasks.flatMap (·.writes)).count path ↔
        ∃ other ∈ tasks, path ∈ other.writes := by
      rw [count_pos_iff, mem_flatMap]
    have htask : 0 < task.writes.count path ↔ path ∈ task.writes := count_pos_iff
    rw [flatMap_cons, count_append, shared_cons_iff, exists_mem_cons_iff, ← hrest, ← htask]
    have hcount : 2 ≤ task.writes.count path + (tasks.flatMap (·.writes)).count path ↔
        2 ≤ (tasks.flatMap (·.writes)).count path ∨ 2 ≤ task.writes.count path ∨
          0 < task.writes.count path ∧ 0 < (tasks.flatMap (·.writes)).count path := by
      omega
    rw [hcount, ih]
    exact iff_of_eq (by ac_rfl)

theorem isSome_writeConflicts_iff {path} : (writeConflicts ready path).isSome ↔
    Shared ready.tasks path ∨ ∃ task ∈ ready.tasks, 2 ≤ task.writes.count path := by
  have hlength : (owners ready path).length = (ready.tasks.flatMap (·.writes)).count path := by
    simp [owners, count_eq_length_filter, filter_flatMap, Bool.beq_eq_decide_eq]
  rw [← two_le_count_iff, writeConflicts]
  split <;> simp <;> omega

/-- When the answer of `next` is safe: no ready task needs a task that is not done, and the paths in
conflict are those that two ready tasks declare. -/
theorem next_safe_iff {phase : Phase} (hphase : openPhase phases = some phase)
    (hnext : next lib change phases = .ok ready) :
    (ready.Independent phase.tasks ∧
        ∀ path, (writeConflicts ready path).isSome ↔ Shared ready.tasks path) ↔
      Orderly phase.tasks := by
  rw [Ready.Independent]
  simp only [forall_needs_iff, isSome_writeConflicts_iff, tasks_of_next hphase hnext]
  exact ⟨fun ⟨hchecked, hwrites⟩ => ⟨hchecked, fun path h => (hwrites path).1 (.inr h)⟩,
    fun h => ⟨h.checked, fun path => ⟨fun hcon => hcon.elim id (h.writes path), .inl⟩⟩⟩

end Progress

/-- The task `1.1` was checked off before `1.2`, which it depends on. -/
def earlyPhase : Phase where
  number := 1
  tasks :=
    [{ id := "1.1", deps := ["1.2"], done := true }, { id := "1.2", deps := [] },
      { id := "1.3", deps := ["1.1"], writes := ["a.go", "a.go"] }]

def earlyReady : Ready where
  change := "c"
  phase := 1
  tasks := [{ id := "1.2", deps := [] },
    { id := "1.3", deps := ["1.1"], writes := ["a.go", "a.go"] }]
  done := false

theorem next_early : next asciiLib "c" [earlyPhase] = .ok earlyReady := by
  have hacyclic : (findCycle (earlyPhase.tasks.map Checkbox.toTask)).getD [] = [] := by
    decide +kernel
  have hphase : openPhase [earlyPhase] = some earlyPhase := rfl
  rfl

theorem next_progress_early : earlyReady.tasks ≠ [] :=
  (next_progress next_early rfl).1

theorem next_safe_early : (earlyReady.Independent earlyPhase.tasks ∧
    ∀ path, (writeConflicts earlyReady path).isSome ↔ Shared earlyReady.tasks path) ↔
      Orderly earlyPhase.tasks :=
  next_safe_iff rfl next_early

/-- The rubric has no finding, `1.3` is ready although it depends on `1.2` through `1.1`, and `a.go` is
in conflict although no other task declares it. -/
theorem early_not_safe : checkPhaseGraph asciiLib "tasks.md" earlyPhase = [] ∧
    next asciiLib "c" [earlyPhase] = .ok earlyReady ∧
    ¬ earlyReady.Independent earlyPhase.tasks ∧
    (writeConflicts earlyReady "a.go").isSome ∧ ¬ Shared earlyReady.tasks "a.go" := by
  refine ⟨by decide +kernel, next_early, fun hsafe => ?_, by decide, ?_⟩
  · have hfirst : Needs earlyPhase.tasks { id := "1.3", deps := ["1.1"], writes := ["a.go", "a.go"] }
        { id := "1.1", deps := ["1.2"], done := true } := ⟨by decide, by decide, by decide⟩
    have hsecond : Needs earlyPhase.tasks { id := "1.1", deps := ["1.2"], done := true }
        { id := "1.2", deps := [] } := ⟨by decide, by decide, by decide⟩
    exact absurd (hsafe _ (by decide) _ (.tail (.single hfirst) hsecond)) (by decide)
  · rintro ⟨a, b, hsub, ha, -⟩
    obtain ⟨rfl, -⟩ := List.cons.inj (hsub.eq_of_length rfl)
    exact absurd ha (by decide)

end Uncworks.Specutil
