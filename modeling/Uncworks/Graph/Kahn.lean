import Mathlib.Data.List.Nodup
import Mathlib.Data.List.Count
import Mathlib.Algebra.BigOperators.Group.List.Basic
import Mathlib.Tactic.NormNum

/-!
# Kahn's algorithm

Cycle detection by counting: every node carries the number of dependencies that have not been taken
off the queue, and enters the queue when that number falls to zero.

The graph is a list of nodes of any type, each with a name and the names it depends on; a name may
be listed as a dependency more than once.
-/

namespace Kahn

open List

variable {σ α : Type*} [DecidableEq α] (name : σ → α) (deps : σ → List α)

section

variable (nodes : List σ)

def Ranked : Prop := ∃ rank : α → ℕ, ∀ s ∈ nodes, ∀ d ∈ deps s, rank d < rank (name s)

/-- The names of the nodes that depend on `n`, once for each time they list it. -/
def successors (n : α) : List α :=
  nodes.flatMap fun s => ((deps s).filter (· = n)).map fun _ => name s

def inDegree (n : α) : ℤ :=
  ((nodes.filter (name · = n)).map fun s => ((deps s).length : ℤ)).sum

def roots : List α :=
  (nodes.map name).filter fun n => inDegree name deps nodes n = 0

end

structure State (α : Type*) where
  inDegree : α → ℤ
  queue : List α
  visited : ℕ

namespace State

def decrement (st : State α) (n : α) : State α where
  inDegree := Function.update st.inDegree n (st.inDegree n - 1)
  queue := if st.inDegree n - 1 = 0 then st.queue ++ [n] else st.queue
  visited := st.visited

theorem decrement_self (st : State α) (n : α) :
    (st.decrement n).inDegree n = st.inDegree n - 1 := Function.update_self ..

theorem decrement_of_ne (st : State α) {m n} (h : m ≠ n) :
    (st.decrement n).inDegree m = st.inDegree m := Function.update_of_ne h ..

theorem decrement_queue (st : State α) (n : α) :
    (st.decrement n).queue = if st.inDegree n - 1 = 0 then st.queue ++ [n] else st.queue := rfl

def step (succ : α → List α) (st : State α) : State α :=
  match st.queue with
  | [] => st
  | n :: queue => (succ n).foldl decrement { st with queue := queue, visited := st.visited + 1 }

def search (succ : α → List α) : ℕ → State α → State α
  | 0, st => st
  | fuel + 1, st => search succ fuel (st.step succ)

end State

def run (nodes : List σ) (queue : List α) : State α :=
  State.search (successors name deps nodes) nodes.length
    { inDegree := inDegree name deps nodes, queue := queue, visited := 0 }

/-! ## The invariant -/

section Count

variable {name deps} {nodes : List σ} {s : σ} {n : α}

theorem inDegree_eq (deps : σ → List α) (hnd : (nodes.map name).Nodup) (hs : s ∈ nodes) :
    inDegree name deps nodes (name s) = (deps s).length := by
  obtain ⟨pre, post, rfl⟩ := append_of_mem hs
  have hne : ∀ t ∈ pre ++ post, ¬ name t = name s := by
    intro t ht heq
    rw [map_append, map_cons, nodup_middle, ← map_append] at hnd
    exact (nodup_cons.1 hnd).1 (heq ▸ mem_map_of_mem ht)
  have hpre : pre.filter (name · = name s) = [] := by
    rw [filter_eq_nil_iff]
    exact fun t ht => by simpa using hne t (mem_append_left _ ht)
  have hpost : post.filter (name · = name s) = [] := by
    rw [filter_eq_nil_iff]
    exact fun t ht => by simpa using hne t (mem_append_right _ ht)
  simp [inDegree, hpre, hpost]

theorem count_filter_map (t : σ) (m : α) :
    (((deps t).filter (· = n)).map fun _ => name t).count m =
      if name t = m then (deps t).count n else 0 := by
  rw [map_const', count_replicate, ← countP_eq_length_filter]
  simp only [beq_iff_eq]
  rfl

theorem count_successors (hnd : (nodes.map name).Nodup) (hs : s ∈ nodes) :
    (successors name deps nodes n).count (name s) = (deps s).count n := by
  obtain ⟨pre, post, rfl⟩ := append_of_mem hs
  have hzero : ∀ l : List σ, (∀ t ∈ l, ¬ name t = name s) →
      (successors name deps l n).count (name s) = 0 := by
    intro l hl
    rw [count_eq_zero]
    intro hmem
    obtain ⟨t, ht, hm⟩ := mem_flatMap.1 hmem
    obtain ⟨_, _, heq⟩ := mem_map.1 hm
    exact hl t ht heq
  rw [map_append, map_cons, nodup_middle, ← map_append] at hnd
  have hne : ∀ t ∈ pre ++ post, ¬ name t = name s := fun t ht heq =>
    (nodup_cons.1 hnd).1 (heq ▸ mem_map_of_mem ht)
  have hpre := hzero pre fun t ht => hne t (mem_append_left _ ht)
  have hpost := hzero post fun t ht => hne t (mem_append_right _ ht)
  unfold successors at hpre hpost ⊢
  rw [flatMap_append, flatMap_cons, count_append, count_append, hpre, count_filter_map, if_pos rfl]
  omega

theorem successors_subset (h : n ∈ successors name deps nodes m) : n ∈ nodes.map name := by
  obtain ⟨t, ht, hn⟩ := mem_flatMap.1 h
  obtain ⟨_, _, rfl⟩ := mem_map.1 hn
  exact mem_map_of_mem ht

end Count

/-- What holds while the successors `rest` of the last visited node are still to be counted:
`done` are the nodes taken off the queue, in order. -/
structure Counted (nodes : List σ) (done rest : List α) (st : State α) : Prop where
  visited : st.visited = done.length
  degree : ∀ s ∈ nodes,
    st.inDegree (name s) = (deps s).countP (· ∉ done) + rest.count (name s)
  known : rest ⊆ nodes.map name
  mem : ∀ n, n ∈ done ++ st.queue ↔ n ∈ nodes.map name ∧ st.inDegree n = 0
  nodup : (done ++ st.queue).Nodup
  ordered : ∀ s ∈ nodes, ∀ pre post, done = pre ++ name s :: post → deps s ⊆ pre

variable {name deps} {nodes : List σ} {done : List α} {st : State α}

namespace Counted

theorem start (hnd : (nodes.map name).Nodup) {queue} (hq : queue.Perm (roots name deps nodes)) :
    Counted name deps nodes [] []
      { inDegree := inDegree name deps nodes, queue := queue, visited := 0 } where
  visited := rfl
  degree s hs := by
    have htrue : (deps s).countP (· ∉ ([] : List α)) = (deps s).length := by simp
    have hlen := inDegree_eq deps hnd hs
    rw [count_nil]
    show inDegree name deps nodes (name s) = _
    omega
  known := nil_subset _
  mem n := by
    rw [nil_append, hq.mem_iff, roots, mem_filter, decide_eq_true_iff]
  nodup := by
    rw [nil_append, hq.nodup_iff]
    exact hnd.filter _
  ordered s hs pre post h := by simp at h

theorem decrement {n rest} (h : Counted name deps nodes done (n :: rest) st) :
    Counted name deps nodes done rest (st.decrement n) := by
  obtain ⟨s, hs, rfl⟩ := mem_map.1 (h.known mem_cons_self)
  have hpos : st.inDegree (name s) - 1 = (deps s).countP (· ∉ done) + rest.count (name s) := by
    rw [h.degree s hs, count_cons_self]
    omega
  have hout : name s ∉ done ++ st.queue := by
    rw [h.mem]
    omega
  constructor
  · exact h.visited
  · intro t ht
    by_cases hts : name t = name s
    · have hdeg := h.degree t ht
      rw [hts, count_cons_self] at hdeg
      rw [hts, State.decrement_self]
      omega
    · have hdeg := h.degree t ht
      rw [count_cons_of_ne (fun heq => hts heq.symm)] at hdeg
      rw [State.decrement_of_ne _ hts, hdeg]
  · exact fun m hm => h.known (mem_cons_of_mem _ hm)
  · intro m
    by_cases hms : m = name s
    · subst hms
      rw [State.decrement_self, State.decrement_queue]
      by_cases hzero : st.inDegree (name s) - 1 = 0
      · simp [hzero, mem_map_of_mem hs]
      · simpa [hzero] using hout
    · have hmem := h.mem m
      rw [State.decrement_of_ne _ hms, State.decrement_queue, ← hmem]
      by_cases hzero : st.inDegree (name s) - 1 = 0
      · simp [hzero, hms]
      · simp [hzero]
  · rw [State.decrement_queue]
    by_cases hzero : st.inDegree (name s) - 1 = 0
    · simp only [hzero, if_true, ← append_assoc]
      rw [nodup_append_comm, singleton_append, nodup_cons]
      exact ⟨hout, h.nodup⟩
    · simpa [hzero] using h.nodup
  · exact h.ordered

theorem foldl_decrement {rest} (h : Counted name deps nodes done rest st) :
    Counted name deps nodes done [] (rest.foldl State.decrement st) := by
  induction rest generalizing st with
  | nil => exact h
  | cons n rest ih => exact ih h.decrement

theorem deps_subset (h : Counted name deps nodes done [] st) {s} (hs : s ∈ nodes)
    (hq : name s ∈ done ++ st.queue) : deps s ⊆ done := by
  have hzero := ((h.mem _).1 hq).2
  rw [h.degree s hs] at hzero
  have hcount : (deps s).countP (· ∉ done) = 0 := by omega
  intro d hd
  by_contra hout
  exact countP_eq_zero.1 hcount d hd (by simpa using hout)

theorem pop (hnd : (nodes.map name).Nodup) (h : Counted name deps nodes done [] st) {n queue} (hq : st.queue = n :: queue) :
    Counted name deps nodes (done ++ [n]) (successors name deps nodes n)
      { st with queue := queue, visited := st.visited + 1 } := by
  have hqueued : n ∈ done ++ st.queue := by simp [hq]
  have hnodup := hq ▸ h.nodup
  have hnew : n ∉ done := fun hmem =>
    (nodup_append.1 hnodup).2.2 n hmem n mem_cons_self rfl
  constructor
  · simp [h.visited]
  · intro s hs
    have hdeg := h.degree s hs
    rw [count_nil] at hdeg
    -- each dependency outside `done` is `n` or outside `done ++ [n]`
    have hsplit : (deps s).countP (· ∉ done) =
        (deps s).countP (· ∉ done ++ [n]) + (deps s).count n := by
      induction deps s with
      | nil => rfl
      | cons d ds ih =>
        rw [countP_cons, count_cons, ih]
        by_cases hd : d = n
        · subst hd
          simp [hnew]
          omega
        · by_cases hmem : d ∈ done
          · simp [hd, hmem]
          · simp [hd, hmem]
            omega
    rw [count_successors hnd hs]
    rw [hdeg, hsplit]
    omega
  · exact fun m hm => successors_subset hm
  · intro m
    rw [append_assoc, singleton_append, ← hq]
    exact h.mem m
  · rw [append_assoc]
    exact hnodup
  · intro s hs pre post hsplit
    rcases eq_nil_or_concat post with rfl | ⟨post', z, rfl⟩
    · obtain ⟨rfl, heq⟩ := append_inj' hsplit rfl
      have hn : n = name s := by simpa using heq
      exact h.deps_subset hs (hn ▸ hqueued)
    · have hsplit' : done ++ [n] = (pre ++ name s :: post') ++ [z] := by simpa using hsplit
      obtain ⟨hdone, -⟩ := append_inj' hsplit' rfl
      exact h.ordered s hs pre post' hdone

theorem step (hnd : (nodes.map name).Nodup) (h : Counted name deps nodes done [] st) {n queue} (hq : st.queue = n :: queue) :
    Counted name deps nodes (done ++ [n]) [] (st.step (successors name deps nodes)) := by
  rw [State.step, hq]
  exact (h.pop hnd hq).foldl_decrement

theorem length_le (h : Counted name deps nodes done [] st) : done.length ≤ nodes.length := by
  have hnodup := (nodup_append.1 h.nodup).1
  have hsub : done ⊆ nodes.map name := fun n hn => ((h.mem n).1 (mem_append_left _ hn)).1
  simpa using (subperm_of_subset hnodup hsub).length_le

theorem search (hnd : (nodes.map name).Nodup) (fuel : ℕ)
    (h : Counted name deps nodes done [] st) (hfuel : nodes.length ≤ done.length + fuel) :
    ∃ done', Counted name deps nodes done' [] (st.search (successors name deps nodes) fuel) ∧
      (st.search (successors name deps nodes) fuel).queue = [] := by
  induction fuel generalizing done st with
  | zero =>
    refine ⟨done, h, ?_⟩
    have hnil : (done ++ st.queue).length ≤ nodes.length := by
      have hsub : done ++ st.queue ⊆ nodes.map name := fun n hn => ((h.mem n).1 hn).1
      simpa using (subperm_of_subset h.nodup hsub).length_le
    rw [length_append] at hnil
    rw [State.search]
    exact length_eq_zero_iff.1 (by omega)
  | succ fuel ih =>
    rw [State.search]
    by_cases hq : st.queue = []
    · have hsame : st.step (successors name deps nodes) = st := by rw [State.step, hq]
      rw [hsame]
      have hstay : st.search (successors name deps nodes) fuel = st := by
        clear ih hfuel
        induction fuel with
        | zero => rfl
        | succ fuel ih => rw [State.search, hsame, ih]
      rw [hstay]
      exact ⟨done, h, hq⟩
    · obtain ⟨n, queue, hq⟩ := exists_cons_of_ne_nil hq
      apply ih (h.step hnd hq)
      rw [length_append, length_singleton]
      omega

theorem visited_eq_iff (hnd : (nodes.map name).Nodup) (hdeps : ∀ s ∈ nodes, deps s ⊆ nodes.map name)
    (h : Counted name deps nodes done [] st) (hq : st.queue = []) :
    st.visited = nodes.length ↔ Ranked name deps nodes := by
  have hmem : ∀ n, n ∈ done ↔ n ∈ nodes.map name ∧ st.inDegree n = 0 := by
    intro n
    have := h.mem n
    rwa [hq, append_nil] at this
  have hdone : done.Nodup := (nodup_append.1 h.nodup).1
  have hsub : done ⊆ nodes.map name := fun n hn => ((hmem n).1 hn).1
  rw [h.visited]
  constructor
  · intro hlen
    have hall : ∀ s ∈ nodes, name s ∈ done := by
      have hperm := (subperm_of_subset hdone hsub).perm_of_length_le (by simp [hlen])
      exact fun s hs => hperm.mem_iff.2 (mem_map_of_mem hs)
    -- the position at which a node was visited is a ranking
    refine ⟨done.idxOf, fun s hs d hd => ?_⟩
    obtain ⟨pre, post, hsplit⟩ := append_of_mem (hall s hs)
    have hpre : d ∈ pre := h.ordered s hs pre post hsplit hd
    have hfresh : name s ∉ pre := by
      rw [hsplit] at hdone
      exact fun hp => (nodup_append.1 hdone).2.2 _ hp _ mem_cons_self rfl
    show done.idxOf d < done.idxOf (name s)
    rw [hsplit, idxOf_append_of_mem hpre, idxOf_append_of_notMem hfresh]
    have := idxOf_lt_length_iff.2 hpre
    omega
  · rintro ⟨rank, hrank⟩
    -- by induction on the rank, every node was visited
    have hall : ∀ k, ∀ s ∈ nodes, rank (name s) ≤ k → name s ∈ done := by
      intro k
      induction k using Nat.strong_induction_on with
      | _ k ih =>
        intro s hs hk
        rw [hmem]
        refine ⟨mem_map_of_mem hs, ?_⟩
        rw [h.degree s hs, count_nil]
        have hcount : (deps s).countP (· ∉ done) = 0 := by
          rw [countP_eq_zero]
          intro d hd
          obtain ⟨t, ht, rfl⟩ := mem_map.1 (hdeps s hs hd)
          have hlt := hrank s hs _ hd
          have := ih (rank (name t)) (by omega) t ht le_rfl
          simpa using this
        omega
    have hback : nodes.map name ⊆ done := by
      intro n hn
      obtain ⟨s, hs, rfl⟩ := mem_map.1 hn
      exact hall _ s hs le_rfl
    have hle := (subperm_of_subset hnd hback).length_le
    rw [length_map] at hle
    exact Nat.le_antisymm h.length_le hle

end Counted

/-- The search visits every node exactly if the graph has a ranking, whatever the order of the
roots in the queue. -/
theorem visited_eq_iff (hnd : (nodes.map name).Nodup) (hdeps : ∀ s ∈ nodes, deps s ⊆ nodes.map name)
    {queue} (hq : queue.Perm (roots name deps nodes)) :
    (run name deps nodes queue).visited = nodes.length ↔ Ranked name deps nodes := by
  obtain ⟨done, h, hnil⟩ := (Counted.start hnd hq).search hnd nodes.length (by simp)
  exact h.visited_eq_iff hnd hdeps hnil

variable (name deps) in
def Edge (nodes : List σ) (n d : α) : Prop := ∃ s ∈ nodes, name s = n ∧ d ∈ deps s

omit [DecidableEq α] in
open Classical in
theorem ranked_iff_acyclic (hdeps : ∀ s ∈ nodes, deps s ⊆ nodes.map name) :
    Ranked name deps nodes ↔ ∀ n, ¬ Relation.TransGen (Edge name deps nodes) n n := by
  constructor
  · rintro ⟨rank, hrank⟩ n hn
    have hlt {m} (hm : Relation.TransGen (Edge name deps nodes) n m) : rank m < rank n := by
      induction hm with
      | single h =>
        obtain ⟨s, hs, rfl, hd⟩ := h
        exact hrank s hs _ hd
      | tail _ h ih =>
        obtain ⟨s, hs, rfl, hd⟩ := h
        exact (hrank s hs _ hd).trans ih
    exact Nat.lt_irrefl _ (hlt hn)
  · intro h
    -- the number of nodes that can be reached is a ranking
    refine ⟨fun n => ((nodes.map name).filter (Relation.TransGen (Edge name deps nodes) n)).length,
      fun s hs d hd => ?_⟩
    have hstep : Relation.TransGen (Edge name deps nodes) (name s) d := .single ⟨s, hs, rfl, hd⟩
    have hsub : (nodes.map name).filter (Relation.TransGen (Edge name deps nodes) d) <+
        (nodes.map name).filter (Relation.TransGen (Edge name deps nodes) (name s)) :=
      monotone_filter_right _ fun m hm => decide_eq_true (hstep.trans (of_decide_eq_true hm))
    refine lt_of_le_of_ne hsub.length_le fun hlen => h d ?_
    have hmem : d ∈ (nodes.map name).filter (Relation.TransGen (Edge name deps nodes) (name s)) :=
      mem_filter.2 ⟨hdeps s hs hd, decide_eq_true hstep⟩
    rw [← hsub.eq_of_length hlen] at hmem
    exact of_decide_eq_true (mem_filter.1 hmem).2

end Kahn
