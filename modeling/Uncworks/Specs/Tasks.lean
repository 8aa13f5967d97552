import Uncworks.Graph.DepthFirst
import Mathlib.Data.List.Dedup
import Mathlib.Data.List.Sort
import Mathlib.Data.String.Basic

/-!
# Task dependencies of a phase

A phase of `tasks.md` is a list of checkboxes, each with an `N.M` identifier and the identifiers it
depends on (`internal/specutil`).  The rubric refuses a phase whose dependencies form a cycle and
prints the cycle; `findCycle` is the search for it.
-/

namespace Uncworks.Specutil

open List

structure Task where
  id : String
  deps : List String
  deriving DecidableEq, Repr

section

variable (tasks : List Task)

/-- The map `deps`, filled in the order of the tasks: a later task replaces an earlier one. -/
def depsOf : String → Option (List String) :=
  tasks.foldl
    (fun deps task => if task.id ≠ "" then Function.update deps task.id (some task.deps) else deps)
    fun _ => none

/-- The dependencies that `walk` does not skip as unknown. -/
def knownDeps (id : String) : List String :=
  ((depsOf tasks id).getD []).filter fun dep => (depsOf tasks dep).isSome

def sortedIds : List String :=
  ((tasks.map Task.id).filter (· ≠ "")).dedup.insertionSort (· ≤ ·)

/-- One cycle of the declared dependencies, or `[]`.  The depth of the calls of `walk` is bounded by
the number of keys. -/
def findCycle : Option (List String) :=
  DepthFirst.search (knownDeps tasks) (sortedIds tasks).length (sortedIds tasks)
    DepthFirst.State.start

/-! ## The graph -/

/-- The task that an identifier stands for: the last one declared with it. -/
def Declares (id : String) (task : Task) : Prop :=
  id ≠ "" ∧ task.id = id ∧
    ∃ pre post, tasks = pre ++ task :: post ∧ ∀ later ∈ post, later.id ≠ id

def DependsOn (a b : String) : Prop :=
  ∃ task, Declares tasks a task ∧ b ∈ task.deps ∧ ∃ other, Declares tasks b other

end

section Graph

variable {tasks : List Task} {id a b : String}

theorem depsOf_append_singleton (tasks : List Task) (task : Task) (id : String) :
    depsOf (tasks ++ [task]) id =
      if task.id ≠ "" ∧ id = task.id then some task.deps else depsOf tasks id := by
  unfold depsOf
  rw [foldl_append, foldl_cons, foldl_nil]
  by_cases hempty : task.id ≠ ""
  · rw [if_pos hempty, Function.update_apply]
    simp [hempty]
  · simp [hempty]

theorem declares_append_singleton (task found : Task) :
    Declares (tasks ++ [task]) id found ↔
      if task.id ≠ "" ∧ id = task.id then found = task else Declares tasks id found := by
  split
  · next h =>
    obtain ⟨hempty, rfl⟩ := h
    constructor
    · rintro ⟨-, -, pre, post, hsplit, hlater⟩
      rcases eq_nil_or_concat post with rfl | ⟨post, last, rfl⟩
      · exact (append_singleton_inj.1 hsplit).2.symm
      · rw [concat_eq_append, ← cons_append, ← append_assoc] at hsplit
        have hlast := (append_singleton_inj.1 hsplit).2
        exact absurd (hlast ▸ rfl) (hlater last (by simp))
    · rintro rfl
      exact ⟨hempty, rfl, tasks, [], rfl, by simp⟩
  · next h =>
    constructor
    · rintro ⟨hempty, hid, pre, post, hsplit, hlater⟩
      rcases eq_nil_or_concat post with rfl | ⟨post, last, rfl⟩
      · have hlast := (append_singleton_inj.1 hsplit).2
        subst hlast
        exact absurd ⟨hid ▸ hempty, hid.symm⟩ h
      · rw [concat_eq_append, ← cons_append, ← append_assoc] at hsplit
        refine ⟨hempty, hid, pre, post, (append_singleton_inj.1 hsplit).1, ?_⟩
        exact fun later hmem => hlater later (by simp [hmem])
    · rintro ⟨hempty, hid, pre, post, rfl, hlater⟩
      refine ⟨hempty, hid, pre, post ++ [task], by simp, ?_⟩
      intro later hmem
      rcases mem_append.1 hmem with hmem | hmem
      · exact hlater later hmem
      · rw [mem_singleton.1 hmem]
        exact fun heq => h ⟨heq ▸ hempty, heq.symm⟩

theorem depsOf_eq_some_iff {l} :
    depsOf tasks id = some l ↔ ∃ task, Declares tasks id task ∧ task.deps = l := by
  induction tasks using reverseRecOn with
  | nil => simp [depsOf, Declares]
  | append_singleton tasks task ih =>
    rw [depsOf_append_singleton]
    simp only [declares_append_singleton]
    split
    · simp
    · exact ih

theorem isSome_depsOf_iff : (depsOf tasks id).isSome ↔ ∃ task, Declares tasks id task := by
  rw [Option.isSome_iff_exists]
  simp only [depsOf_eq_some_iff]
  exact ⟨fun ⟨_, task, h, _⟩ => ⟨task, h⟩, fun ⟨task, h⟩ => ⟨_, task, h, rfl⟩⟩

theorem mem_knownDeps_iff : b ∈ knownDeps tasks a ↔ DependsOn tasks a b := by
  rw [knownDeps, mem_filter, isSome_depsOf_iff]
  constructor
  · rintro ⟨hmem, hb⟩
    cases hdeps : depsOf tasks a with
    | none => simp [hdeps] at hmem
    | some l =>
      obtain ⟨task, hdeclares, rfl⟩ := depsOf_eq_some_iff.1 hdeps
      exact ⟨task, hdeclares, by simpa [hdeps] using hmem, hb⟩
  · rintro ⟨task, hdeclares, hmem, hb⟩
    have hdeps := depsOf_eq_some_iff.2 ⟨task, hdeclares, rfl⟩
    exact ⟨by simpa [hdeps] using hmem, hb⟩

theorem exists_declares_iff :
    (∃ task, Declares tasks id task) ↔ id ≠ "" ∧ ∃ task ∈ tasks, task.id = id := by
  induction tasks using reverseRecOn with
  | nil => simp [Declares]
  | append_singleton tasks task ih =>
    simp only [declares_append_singleton]
    split
    · next h =>
      obtain ⟨hempty, rfl⟩ := h
      exact iff_of_true ⟨task, rfl⟩ ⟨hempty, task, by simp, rfl⟩
    · next h =>
      rw [ih]
      constructor
      · rintro ⟨hempty, found, hfound, hid⟩
        exact ⟨hempty, found, mem_append_left _ hfound, hid⟩
      · rintro ⟨hempty, found, hfound, hid⟩
        refine ⟨hempty, found, ?_, hid⟩
        rcases mem_append.1 hfound with hfound | hfound
        · exact hfound
        · rw [mem_singleton.1 hfound] at hid
          exact absurd ⟨hid ▸ hempty, hid.symm⟩ h

theorem mem_sortedIds_iff : id ∈ sortedIds tasks ↔ ∃ task, Declares tasks id task := by
  rw [exists_declares_iff]
  simp [sortedIds, and_comm]

end Graph

/-! ## The search -/

theorem findCycle_cases (tasks : List Task) :
    ∃ cycle, findCycle tasks = some cycle ∧
      (cycle = [] ∧ ¬ DepthFirst.Cyclic (DependsOn tasks) ∨
        DepthFirst.ClosedWalk (DependsOn tasks) cycle) := by
  have hedge : (fun a b => b ∈ knownDeps tasks a) = DependsOn tasks := by
    funext a b
    exact propext mem_knownDeps_iff
  have hnodes : ∀ a, knownDeps tasks a ⊆ sortedIds tasks := fun a b hb =>
    let ⟨_, _, _, hknown⟩ := mem_knownDeps_iff.1 hb
    mem_sortedIds_iff.2 hknown
  have hsource : ∀ a, knownDeps tasks a ≠ [] → a ∈ sortedIds tasks := by
    intro a ha
    obtain ⟨b, hb⟩ := List.exists_mem_of_ne_nil _ ha
    obtain ⟨task, hdeclares, -⟩ := mem_knownDeps_iff.1 hb
    exact mem_sortedIds_iff.2 ⟨task, hdeclares⟩
  rw [← hedge]
  exact DepthFirst.search_cases hnodes hsource (fun a => Iff.rfl) (le_refl (sortedIds tasks).length)

/-- `findCycle` returns, and not the empty list exactly if the dependencies have a cycle; it is then
a walk along dependencies that ends where it began. -/
theorem findCycle_iff (tasks : List Task) :
    ∃ cycle, findCycle tasks = some cycle ∧
      (cycle ≠ [] ↔ DepthFirst.Cyclic (DependsOn tasks)) ∧
      (cycle ≠ [] → DepthFirst.ClosedWalk (DependsOn tasks) cycle) := by
  obtain ⟨cycle, hcycle, hcases⟩ := findCycle_cases tasks
  refine ⟨cycle, hcycle, ?_⟩
  rcases hcases with ⟨rfl, hacyclic⟩ | hclosed
  · exact ⟨by simp [hacyclic], by simp⟩
  · have hne : cycle ≠ [] := by
      rintro rfl
      exact absurd hclosed.length (by simp)
    exact ⟨iff_of_true hne hclosed.cyclic, fun _ => hclosed⟩

end Uncworks.Specutil
