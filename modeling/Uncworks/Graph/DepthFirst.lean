import Mathlib.Data.List.Chain
import Mathlib.Data.List.Count
import Mathlib.Data.List.Nodup

/-!
# Depth-first search for a cycle

A recursive search with three colours and one shared path.  The path holds the nodes that are being
searched; a successor that is on the path closes a cycle, and the search stops there.
-/

namespace DepthFirst

open List Function

variable {α : Type*}

inductive Colour
  | unvisited
  | active
  | done
  deriving DecidableEq, Repr

structure State (α : Type*) where
  colour : α → Colour
  path : List α
  cycle : List α

def State.start : State α where
  colour _ := .unvisited
  path := []
  cycle := []

/-! ## Cycles of a graph -/

structure ClosedWalk (edge : α → α → Prop) (l : List α) : Prop where
  chain : l.IsChain edge
  length : 2 ≤ l.length
  closed : l.head? = l.getLast?

def Cyclic (edge : α → α → Prop) : Prop := ∃ a, Relation.TransGen edge a a

theorem ClosedWalk.cyclic {edge} {l : List α} (h : ClosedWalk edge l) : Cyclic edge := by
  obtain ⟨hchain, hlength, hclosed⟩ := h
  match l, hlength with
  | a :: b :: l, _ =>
    refine ⟨a, ?_⟩
    have hlast : (b :: l).getLast (cons_ne_nil b l) = a := by
      exact (Option.some.inj hclosed).symm
    rw [isChain_cons_cons] at hchain
    have hrest := relationReflTransGen_of_exists_isChain_cons l hchain.2 hlast
    exact Relation.TransGen.head' hchain.1 hrest

theorem not_transGen_of_acc {edge} {a : α} (h : Acc (fun b a => edge a b) a) :
    ¬ Relation.TransGen edge a a := by
  have hacc := h.transGen
  induction hacc with
  | intro a _ ih =>
    intro hcycle
    have hswap := Relation.transGen_swap.2 hcycle
    exact ih a hswap h hcycle

/-! ## The invariant -/

section Invariant

variable {succ : α → List α} {st st' st'' : State α}

/-- What holds between two calls: the path holds the active nodes along edges, and all paths from a
node that is done end. -/
structure Sound (succ : α → List α) (st : State α) : Prop where
  active_iff : ∀ a, st.colour a = .active ↔ a ∈ st.path
  nodup : st.path.Nodup
  chain : st.path.IsChain fun a b => b ∈ succ a
  acc : ∀ a, st.colour a = .done → Acc (fun b a => b ∈ succ a) a

theorem sound_start : Sound succ (State.start : State α) where
  active_iff a := by simp [State.start]
  nodup := nodup_nil
  chain := isChain_nil
  acc a h := nomatch h

structure Before (st st' : State α) : Prop where
  done : ∀ a, st.colour a = .done → st'.colour a = .done
  unvisited : ∀ a, st'.colour a = .unvisited → st.colour a = .unvisited

theorem Before.refl (st : State α) : Before st st := ⟨fun _ h => h, fun _ h => h⟩

theorem Before.trans (h : Before st st') (h' : Before st' st'') : Before st st'' :=
  ⟨fun a ha => h'.done a (h.done a ha), fun a ha => h.unvisited a (h'.unvisited a ha)⟩

theorem done_of_cons {all rest : List α} {b}
    (hdone : ∀ a ∈ all, a ∈ b :: rest ∨ st.colour a = .done) (h : Before st st')
    (hb : st'.colour b = .done) : ∀ a ∈ all, a ∈ rest ∨ st'.colour a = .done := by
  intro a ha
  rcases hdone a ha with hmem | ha
  · rcases mem_cons.1 hmem with rfl | hmem
    · exact Or.inr hb
    · exact Or.inl hmem
  · exact Or.inr (h.done a ha)

def pending (nodes : List α) (st : State α) : ℕ := nodes.countP (st.colour · = .unvisited)

theorem Before.pending_le (h : Before st st') (nodes : List α) :
    pending nodes st' ≤ pending nodes st :=
  countP_mono_left fun a _ ha => by simpa using h.unvisited a (by simpa using ha)

end Invariant

/-! ## The search -/

variable [DecidableEq α]

namespace State

def enter (st : State α) (id : α) : State α :=
  { st with colour := Function.update st.colour id .active, path := st.path ++ [id] }

def leave (st : State α) (id : α) : State α :=
  { st with colour := Function.update st.colour id .done, path := st.path.dropLast }

def close (st : State α) (dep : α) : State α :=
  if dep ∈ st.path then { st with cycle := st.path.dropWhile (· ≠ dep) ++ [dep] } else st

end State

def scan (walk : α → State α → Option (Bool × State α)) (id : α) :
    List α → State α → Option (Bool × State α)
  | [], st => some (false, st.leave id)
  | dep :: deps, st =>
    match st.colour dep with
    | .active => some (true, st.close dep)
    | .unvisited =>
      (walk dep st).bind fun r => if r.1 then some r else scan walk id deps r.2
    | .done => scan walk id deps st

def walk (succ : α → List α) : ℕ → α → State α → Option (Bool × State α)
  | 0, _, _ => none
  | fuel + 1, id, st => scan (walk succ fuel) id (succ id) (st.enter id)

/-- Search from every node that is not visited yet; the answer is the cycle, or `[]`. -/
def search (succ : α → List α) (fuel : ℕ) : List α → State α → Option (List α)
  | [], _ => some []
  | id :: ids, st =>
    if st.colour id = .unvisited then
      (walk succ fuel id st).bind fun r =>
        if r.1 then some r.2.cycle else search succ fuel ids r.2
    else search succ fuel ids st

/-! ## One step -/

section Step

variable {succ : α → List α} {st st' : State α} {id dep : α} {path : List α}

theorem Sound.enter (h : Sound succ st) (hid : st.colour id = .unvisited)
    (hlast : ∀ a ∈ st.path.getLast?, id ∈ succ a) : Sound succ (st.enter id) where
  active_iff a := by
    by_cases ha : a = id
    · simp [State.enter, ha]
    · simp [State.enter, ha, h.active_iff a]
  nodup := by
    have hnot : id ∉ st.path := by
      rw [← h.active_iff, hid]
      decide
    show (st.path ++ [id]).Nodup
    rw [← concat_eq_append, nodup_concat]
    exact ⟨hnot, h.nodup⟩
  chain := by
    refine h.chain.append (isChain_singleton id) ?_
    intro a ha b hb
    obtain rfl : id = b := by simpa using hb
    exact hlast a ha
  acc a ha := by
    by_cases hne : a = id
    · simp [State.enter, hne] at ha
    · exact h.acc a (by simpa [State.enter, update_of_ne hne] using ha)

theorem Sound.leave (h : Sound succ st) (hpath : st.path = path ++ [id])
    (hdone : ∀ b ∈ succ id, st.colour b = .done) : Sound succ (st.leave id) where
  active_iff a := by
    have hnot : id ∉ path := by
      have hnodup := h.nodup
      rw [hpath, ← concat_eq_append, nodup_concat] at hnodup
      exact hnodup.1
    by_cases ha : a = id
    · simp [State.leave, ha, hpath, hnot]
    · simp [State.leave, h.active_iff a, hpath, ha]
  nodup := h.nodup.sublist (dropLast_sublist _)
  chain := h.chain.dropLast
  acc a ha := by
    by_cases hne : a = id
    · subst hne
      exact Acc.intro _ fun b hb => h.acc b (hdone b hb)
    · exact h.acc a (by simpa [State.leave, update_of_ne hne] using ha)

theorem before_enter (hid : st.colour id = .unvisited) : Before st (st.enter id) where
  done a ha := by
    have hne : a ≠ id := by
      rintro rfl
      simp [hid] at ha
    simpa [State.enter, update_of_ne hne] using ha
  unvisited a ha := by
    by_cases hne : a = id
    · rwa [hne]
    · simpa [State.enter, update_of_ne hne] using ha

theorem before_leave (st : State α) (id : α) : Before st (st.leave id) where
  done a ha := by
    by_cases hne : a = id
    · simp [State.leave, hne]
    · simpa [State.leave, update_of_ne hne] using ha
  unvisited a ha := by
    by_cases hne : a = id
    · simp [State.leave, hne] at ha
    · simpa [State.leave, update_of_ne hne] using ha

theorem pending_enter_lt {nodes} (hmem : id ∈ nodes) (hid : st.colour id = .unvisited) :
    pending nodes (st.enter id) < pending nodes st := by
  obtain ⟨pre, post, rfl⟩ := append_of_mem hmem
  have hpre := (before_enter hid).pending_le pre
  have hpost := (before_enter hid).pending_le post
  have hself : (st.enter id).colour id = .active := update_self ..
  unfold pending at hpre hpost ⊢
  simp only [countP_append, countP_cons, hself, hid]
  simp only [reduceCtorEq, decide_false, if_false, decide_true, if_true]
  omega

theorem Sound.close (h : Sound succ st) (hpath : st.path = path ++ [id]) (hdep : dep ∈ succ id)
    (hmem : dep ∈ st.path) : ClosedWalk (fun a b => b ∈ succ a) (st.close dep).cycle := by
  obtain ⟨pre, post, hsplit, hnot⟩ := eq_append_cons_of_mem hmem
  have hdrop : st.path.dropWhile (· ≠ dep) = dep :: post := by
    rw [hsplit, dropWhile_append_of_pos, dropWhile_cons_of_neg] <;> simp
    exact fun a ha heq => hnot (heq ▸ ha)
  have hcycle : (st.close dep).cycle = dep :: post ++ [dep] := by
    rw [State.close, if_pos hmem, ← hdrop]
  have hlast : (dep :: post).getLast? = some id := by
    have hend : (pre ++ dep :: post).getLast? = some id := by rw [← hsplit, hpath]; simp
    rwa [getLast?_append_of_ne_nil _ (cons_ne_nil dep post)] at hend
  rw [hcycle]
  refine ⟨?_, by simp, by rw [getLast?_append]; rfl⟩
  refine IsChain.append ?_ (isChain_singleton dep) ?_
  · exact (hsplit ▸ h.chain).right_of_append
  · intro a ha b hb
    obtain rfl : dep = b := by simpa using hb
    obtain rfl : id = a := by simpa [hlast] using ha
    exact hdep

end Step

/-! ## Whole searches -/

section Search

variable {succ : α → List α} {nodes : List α}

/-- What a search from `id` comes to: a closed walk, or `id` is done and the path is as before. -/
def Settles (succ : α → List α) (st : State α) (path : List α) (id : α)
    (r : Bool × State α) : Prop :=
  (r.1 = true ∧ ClosedWalk (fun a b => b ∈ succ a) r.2.cycle) ∨
    (r.1 = false ∧ Sound succ r.2 ∧ Before st r.2 ∧ r.2.path = path ∧ r.2.colour id = .done)

/-- The searches from nodes that are not visited settle if `fuel` is enough for them. -/
def WalkSettles (succ : α → List α) (nodes : List α) (fuel : ℕ)
    (walk : α → State α → Option (Bool × State α)) : Prop :=
  ∀ id st, Sound succ st → id ∈ nodes → st.colour id = .unvisited →
    (∀ a ∈ st.path.getLast?, id ∈ succ a) → pending nodes st ≤ fuel →
    ∃ r, walk id st = some r ∧ Settles succ st st.path id r

theorem scan_settles {fuel : ℕ} {walk : α → State α → Option (Bool × State α)}
    (hwalk : WalkSettles succ nodes fuel walk) (hnodes : ∀ a, succ a ⊆ nodes) {id : α}
    {path : List α} : ∀ (deps : List α) (st : State α), Sound succ st → st.path = path ++ [id] →
      deps ⊆ succ id → (∀ b ∈ succ id, b ∈ deps ∨ st.colour b = .done) → pending nodes st ≤ fuel →
      ∃ r, scan walk id deps st = some r ∧ Settles succ st path id r
  | [], st, hst, hpath, _, hdone, _ => by
    refine ⟨_, rfl, Or.inr ⟨rfl, ?_, before_leave st id, ?_, ?_⟩⟩
    · exact hst.leave hpath fun b hb => (hdone b hb).resolve_left not_mem_nil
    · simp [State.leave, hpath]
    · simp [State.leave]
  | dep :: deps, st, hst, hpath, hsub, hdone, hfuel => by
    have hdep : dep ∈ succ id := hsub mem_cons_self
    have hrest : deps ⊆ succ id := fun b hb => hsub (mem_cons_of_mem dep hb)
    rw [scan]
    match hcolour : st.colour dep with
    | .active =>
      exact ⟨_, rfl, Or.inl ⟨rfl, hst.close hpath hdep ((hst.active_iff dep).1 hcolour)⟩⟩
    | .done =>
      exact scan_settles hwalk hnodes deps st hst hpath hrest
        (done_of_cons hdone (Before.refl st) hcolour) hfuel
    | .unvisited =>
      have hlast : ∀ a ∈ st.path.getLast?, dep ∈ succ a := by
        intro a ha
        obtain rfl : id = a := by simpa [hpath] using ha
        exact hdep
      obtain ⟨r, hr, hfound | ⟨hnot, hsound, hbefore, hsame, hdepDone⟩⟩ :=
        hwalk dep st hst (hnodes id hdep) hcolour hlast hfuel
      · exact ⟨r, by simp [hr, hfound.1], Or.inl hfound⟩
      · have hdone' := done_of_cons hdone hbefore hdepDone
        obtain ⟨r', hr', hsettles⟩ := scan_settles hwalk hnodes deps r.2 hsound
          (hsame.trans hpath) hrest hdone' ((hbefore.pending_le nodes).trans hfuel)
        refine ⟨r', by simp [hr, hnot, hr'], ?_⟩
        rcases hsettles with hfound | ⟨hnot', hsound', hbefore', hrest'⟩
        · exact Or.inl hfound
        · exact Or.inr ⟨hnot', hsound', hbefore.trans hbefore', hrest'⟩

theorem walk_settles (hnodes : ∀ a, succ a ⊆ nodes) :
    ∀ fuel, WalkSettles succ nodes fuel (walk succ fuel)
  | 0, id, st, _, hmem, hid, _, hfuel => by
    have := pending_enter_lt hmem hid
    omega
  | fuel + 1, id, st, hst, hmem, hid, hlast, hfuel => by
    have hpending := pending_enter_lt hmem hid
    obtain ⟨r, hr, hsettles⟩ := scan_settles (walk_settles hnodes fuel) hnodes (succ id)
      (st.enter id) (hst.enter hid hlast) rfl (fun _ hb => hb) (fun b hb => Or.inl hb) (by omega)
    refine ⟨r, hr, ?_⟩
    rcases hsettles with hfound | ⟨hnot, hsound, hbefore, hrest⟩
    · exact Or.inl hfound
    · exact Or.inr ⟨hnot, hsound, (before_enter hid).trans hbefore, hrest⟩

/-- The loop over the nodes, from any point where the path is empty and those before it are done. -/
theorem search_from (hnodes : ∀ a, succ a ⊆ nodes) {fuel : ℕ} :
    ∀ (ids : List α) (st : State α), Sound succ st → st.path = [] → ids ⊆ nodes →
      (∀ a ∈ nodes, a ∈ ids ∨ st.colour a = .done) → pending nodes st ≤ fuel →
      ∃ l, search succ fuel ids st = some l ∧
        ((l = [] ∧ ∀ a ∈ nodes, Acc (fun b a => b ∈ succ a) a) ∨
          ClosedWalk (fun a b => b ∈ succ a) l)
  | [], st, hst, _, _, hdone, _ => by
    refine ⟨[], rfl, Or.inl ⟨rfl, fun a ha => hst.acc a ?_⟩⟩
    exact (hdone a ha).resolve_left not_mem_nil
  | id :: ids, st, hst, hpath, hsub, hdone, hfuel => by
    have hrest : ids ⊆ nodes := fun b hb => hsub (mem_cons_of_mem id hb)
    rw [search]
    split
    · next hid =>
      obtain ⟨r, hr, hfound | ⟨hnot, hsound, hbefore, hsame, hidDone⟩⟩ :=
        walk_settles hnodes fuel id st hst (hsub mem_cons_self) hid (by simp [hpath]) hfuel
      · exact ⟨r.2.cycle, by simp [hr, hfound.1], Or.inr hfound.2⟩
      · obtain ⟨l, hl, hcases⟩ := search_from hnodes ids r.2 hsound (hsame.trans hpath) hrest
          (done_of_cons hdone hbefore hidDone) ((hbefore.pending_le nodes).trans hfuel)
        exact ⟨l, by simp [hr, hnot, hl], hcases⟩
    · next hid =>
      -- with an empty path nothing is active
      have hactive : st.colour id ≠ .active := by
        rw [ne_eq, hst.active_iff, hpath]
        exact not_mem_nil
      have hidDone : st.colour id = .done := by
        cases hcolour : st.colour id with
        | unvisited => exact absurd hcolour hid
        | active => exact absurd hcolour hactive
        | done => rfl
      exact search_from hnodes ids st hst hpath hrest
        (done_of_cons hdone (Before.refl st) hidDone) hfuel

theorem search_cases (hnodes : ∀ a, succ a ⊆ nodes) (hsource : ∀ a, succ a ≠ [] → a ∈ nodes) {ids}
    (hids : ∀ a, a ∈ ids ↔ a ∈ nodes) {fuel} (hfuel : nodes.length ≤ fuel) :
    ∃ l, search succ fuel ids State.start = some l ∧
      ((l = [] ∧ ¬ Cyclic fun a b => b ∈ succ a) ∨ ClosedWalk (fun a b => b ∈ succ a) l) := by
  obtain ⟨l, hl, ⟨rfl, hacc⟩ | hclosed⟩ := search_from hnodes ids State.start sound_start rfl
    (fun a ha => (hids a).1 ha) (fun a ha => Or.inl ((hids a).2 ha))
    (countP_le_length.trans hfuel)
  · refine ⟨[], hl, Or.inl ⟨rfl, ?_⟩⟩
    rintro ⟨a, ha⟩
    obtain ⟨b, hb, -⟩ := Relation.TransGen.head'_iff.1 ha
    exact not_transGen_of_acc (hacc a (hsource a (ne_nil_of_mem hb))) ha
  · exact ⟨l, hl, Or.inr hclosed⟩

end Search

end DepthFirst
