import Mathlib.Data.List.Nodup
import Mathlib.Data.Nat.Find

/-!
# Walking through a list page by page

A client reads a list in pages of a fixed size.  Each request sees the list as it is then; it gets
the first items behind the one the last page ended with, or those from the start if that one is not
in the list.  The lists are sorted by a key, but items with the same key may change places.
-/

namespace Paging

open List

variable {α ν : Type*} (name : α → ν) (key : α → ℕ)

/-- A list that pages are cut from: the largest keys first, and no name twice. -/
structure Listing (l : List α) : Prop where
  sorted : l.Pairwise fun a b => key b ≤ key a
  nodup : (l.map name).Nodup

theorem Listing.eq_of_name {l x y} {name : α → ν} {key} (hl : Listing name key l) (hx : x ∈ l)
    (hy : y ∈ l) (h : name x = name y) : x = y :=
  inj_on_of_nodup_map hl.nodup hx hy h

variable [DecidableEq ν]

/-- The items behind the one with the given name; all of them if there is no such item. -/
def after (c : Option ν) (l : List α) : List α :=
  match c with
  | none => l
  | some c => match l.findIdx? fun x => name x = c with
    | some i => l.drop (i + 1)
    | none => l

structure Walk (α : Type*) where
  returned : List α := []
  finished : Bool := false

namespace Walk

def cursor (w : Walk α) : Option ν := w.returned.getLast?.map name

def next (size : ℕ) (l : List α) (w : Walk α) : Walk α :=
  if w.finished then w
  else
    let rest := after name (w.cursor name) l
    { returned := w.returned ++ rest.take size, finished := rest.length ≤ size }

def run (size : ℕ) (lists : ℕ → List α) : ℕ → Walk α
  | 0 => {}
  | n + 1 => (run size lists n).next name size (lists n)

end Walk

/-- The item that a walk has stopped at is in the list, and no other item has its key. -/
def Kept (w : Walk α) (l : List α) : Prop :=
  ∀ c ∈ w.returned.getLast?, (∃ x ∈ l, name x = name c ∧ key x = key c) ∧
    ∀ y ∈ l, key y = key c → name y = name c

def Present (i : ν) (t : ℕ) (l : List α) : Prop := ∃ x ∈ l, name x = i ∧ key x = t

def Walk.Passed (w : Walk α) (t : ℕ) : Prop := ∃ c ∈ w.returned.getLast?, key c ≤ t

/-- The walk has returned the item with this name once if it has passed its key, and otherwise not
at all. -/
structure Walk.Counted (w : Walk α) (i : ν) (t : ℕ) : Prop where
  once : w.Passed key t → (w.returned.map name).count i = 1
  never : ¬ w.Passed key t → (w.returned.map name).count i = 0

variable {name key} {l : List α} {w : Walk α} {i : ν} {t size : ℕ} {x y c : α}

/-! ## The items behind a cursor -/

theorem findIdx?_split {pre post} (hpre : ∀ y ∈ pre, name y ≠ name x) :
    (pre ++ x :: post).findIdx? (fun y => name y = name x) = some pre.length := by
  rw [findIdx?_append, findIdx?_eq_none_iff.2 (by simpa using hpre)]
  simp [findIdx?_cons]

theorem after_split (hl : Listing name key l) (hx : x ∈ l) :
    ∃ pre post, l = pre ++ x :: post ∧ after name (some (name x)) l = post := by
  obtain ⟨pre, post, rfl⟩ := append_of_mem hx
  have hpre : ∀ y ∈ pre, name y ≠ name x := by
    intro y hy
    have hdis := (nodup_append.1 (map_append ▸ hl.nodup)).2.2
    exact hdis _ (mem_map_of_mem hy) _ (mem_map_of_mem mem_cons_self)
  refine ⟨pre, post, rfl, ?_⟩
  rw [after, findIdx?_split hpre]
  simp

theorem after_sublist (c : Option ν) (l : List α) : (after name c l).Sublist l := by
  unfold after
  split
  · exact .refl _
  · split
    · exact drop_sublist _ _
    · exact .refl _

theorem mem_after (hl : Listing name key l) (hk : Kept name key w l) :
    y ∈ after name (w.cursor name) l ↔ y ∈ l ∧ ¬ w.Passed key (key y) := by
  unfold Walk.cursor Walk.Passed
  cases hc : w.returned.getLast? with
  | none => simp [after]
  | some c =>
    obtain ⟨⟨x, hx, hname, hkey⟩, hunique⟩ := hk c hc
    obtain ⟨pre, post, hsplit, hafter⟩ := after_split hl hx
    rw [Option.map_some, ← hname, hafter]
    have hsorted := pairwise_append.1 (hsplit ▸ hl.sorted)
    have hnodup := hl.nodup
    simp only [hsplit, map_append, map_cons, nodup_append, nodup_cons] at hnodup
    constructor
    · intro hy
      have hyl : y ∈ l := by simp [hsplit, hy]
      refine ⟨hyl, ?_⟩
      rintro ⟨d, hd, hle⟩
      obtain rfl : c = d := Option.some.inj hd
      have hge := (pairwise_cons.1 hsorted.2.1).1 y hy
      have hyx := (hunique y hyl (by omega)).trans hname.symm
      exact hnodup.2.1.1 (hyx ▸ mem_map_of_mem hy)
    · rintro ⟨hyl, hlt⟩
      have hlt : key y < key x := by
        rw [hkey]
        exact Nat.lt_of_not_le fun hle => hlt ⟨c, rfl, hle⟩
      rw [hsplit] at hyl
      rcases mem_append.1 hyl with hpre | hpost
      · have := hsorted.2.2 y hpre x mem_cons_self
        omega
      · rcases mem_cons.1 hpost with rfl | hpost
        · omega
        · exact hpost

/-! ## One request -/

omit [DecidableEq ν] in
theorem Listing.sublist {page} (hl : Listing name key l) (h : page.Sublist l) :
    Listing name key page :=
  ⟨hl.sorted.sublist h, hl.nodup.sublist (h.map name)⟩

theorem Listing.count_eq_one (hl : Listing name key l) (hx : x ∈ l) :
    (l.map name).count (name x) = 1 :=
  count_eq_one_of_mem hl.nodup (mem_map_of_mem hx)

theorem Listing.count_eq_zero {page : List α} (hl : Listing name key l) (h : page.Sublist l)
    (hx : x ∈ l) (hp : x ∉ page) : (page.map name).count (name x) = 0 := by
  rw [List.count_eq_zero]
  intro hmem
  obtain ⟨y, hy, hname⟩ := mem_map.1 hmem
  exact hp (hl.eq_of_name (h.subset hy) hx hname ▸ hy)

section Step

variable (hl : Listing name key l) (hk : Kept name key w l) (hf : w.finished = false)

include hf in
theorem next_returned (size : ℕ) :
    (w.next name size l).returned = w.returned ++ (after name (w.cursor name) l).take size := by
  simp [Walk.next, hf]

include hf in
theorem next_finished (size : ℕ) :
    (w.next name size l).finished = decide ((after name (w.cursor name) l).length ≤ size) := by
  simp [Walk.next, hf]

include hl hk hf in
theorem count_of_finished (hcount : w.Counted name key i t) (hi : Present name key i t l)
    (hfin : (w.next name size l).finished) :
    ((w.next name size l).returned.map name).count i = 1 := by
  obtain ⟨x, hx, rfl, rfl⟩ := hi
  rw [next_finished hf, decide_eq_true_eq] at hfin
  rw [next_returned hf, take_of_length_le hfin, map_append, count_append]
  by_cases hp : w.Passed key (key x)
  · have hmem : x ∉ after name (w.cursor name) l := fun h => ((mem_after hl hk).1 h).2 hp
    rw [hcount.once hp, hl.count_eq_zero (after_sublist _ _) hx hmem]
  · have hmem : x ∈ after name (w.cursor name) l := (mem_after hl hk).2 ⟨hx, hp⟩
    rw [hcount.never hp, (hl.sublist (after_sublist _ _)).count_eq_one hmem]

end Step

omit [DecidableEq ν] in
theorem Listing.last_of_take (hl : Listing name key l) (hsize : 0 < size) (hmore : size < l.length) :
    ∃ c ∈ l.take size, (l.take size).getLast? = some c ∧ (∀ y ∈ l.take size, key c ≤ key y) ∧
      ∀ y ∈ l.drop size, key y ≤ key c := by
  have hne : l.take size ≠ [] := ne_nil_of_length_pos (by rw [length_take]; omega)
  have hmem := getLast_mem hne
  have hsplit := pairwise_append.1 ((take_append_drop size l).symm ▸ hl.sorted)
  refine ⟨_, hmem, getLast?_eq_getLast_of_ne_nil hne, fun y hy => ?_, fun y hy => ?_⟩
  · rw [← dropLast_append_getLast hne, mem_append, mem_singleton] at hy
    rcases hy with hy | rfl
    · have hpage := (dropLast_append_getLast hne).symm ▸ hsplit.1
      exact (pairwise_append.1 hpage).2.2 y hy _ (mem_singleton_self _)
    · exact le_rfl
  · exact hsplit.2.2 _ hmem y hy

section More

variable (hl : Listing name key l) (hk : Kept name key w l) (hf : w.finished = false)
  (hsize : 0 < size) (hmore : (w.next name size l).finished = false)

include hl hk hf hsize hmore

/-- The last item of a page that others follow: its key is new, no item of the page has a smaller
key, and no item behind it a larger one. -/
theorem last_of_next :
    ∃ c ∈ (after name (w.cursor name) l).take size,
      (w.next name size l).returned.getLast? = some c ∧ ¬ w.Passed key (key c) ∧
      (∀ y ∈ (after name (w.cursor name) l).take size, key c ≤ key y) ∧
      ∀ y ∈ (after name (w.cursor name) l).drop size, key y ≤ key c := by
  rw [next_finished hf, decide_eq_false_iff_not, not_le] at hmore
  obtain ⟨c, hmem, hlast, hpage, hbehind⟩ :=
    (hl.sublist (after_sublist _ _)).last_of_take hsize hmore
  refine ⟨c, hmem, ?_, ((mem_after hl hk).1 (mem_of_mem_take hmem)).2, hpage, hbehind⟩
  rw [next_returned hf, getLast?_append, hlast]
  rfl

theorem Walk.Passed.next (hp : w.Passed key t) : (w.next name size l).Passed key t := by
  obtain ⟨c, hc, hle⟩ := hp
  obtain ⟨c', -, hlast, hnew, -⟩ := last_of_next hl hk hf hsize hmore
  exact ⟨c', hlast, le_trans (le_of_not_ge fun h => hnew ⟨c, hc, h⟩) hle⟩

theorem mem_page (hx : x ∈ l)
    (hunique : ∀ c ∈ (w.next name size l).returned.getLast?, key c = key x → name c = name x) :
    x ∈ (after name (w.cursor name) l).take size ↔
      (w.next name size l).Passed key (key x) ∧ ¬ w.Passed key (key x) := by
  obtain ⟨c, hcmem, hlast, -, hpage, hbehind⟩ := last_of_next hl hk hf hsize hmore
  constructor
  · intro h
    exact ⟨⟨c, hlast, hpage x h⟩, ((mem_after hl hk).1 (mem_of_mem_take h)).2⟩
  · rintro ⟨⟨d, hd, hle⟩, hnew⟩
    obtain rfl : c = d := Option.some.inj (hlast.symm.trans hd)
    have hmem := (mem_after hl hk).2 ⟨hx, hnew⟩
    rw [← take_append_drop size (after name (w.cursor name) l), mem_append] at hmem
    refine hmem.elim id fun hdrop => ?_
    -- an item behind the page with the key of its last one is that one
    have hkey := le_antisymm hle (hbehind x hdrop)
    have hcl : c ∈ l := (after_sublist _ _).subset (mem_of_mem_take hcmem)
    exact hl.eq_of_name hcl hx (hunique c hlast hkey) ▸ hcmem

theorem Walk.Counted.next (hcount : w.Counted name key i t) (hi : Present name key i t l)
    (hunique : ∀ c ∈ (w.next name size l).returned.getLast?, key c = t → name c = i) :
    (w.next name size l).Counted name key i t := by
  obtain ⟨x, hx, rfl, rfl⟩ := hi
  have hpage := mem_page hl hk hf hsize hmore hx hunique
  have hsub : ((after name (w.cursor name) l).take size).Sublist l :=
    (take_sublist _ _).trans (after_sublist _ _)
  have hadd : ((w.next name size l).returned.map name).count (name x) =
      (w.returned.map name).count (name x) +
        (((after name (w.cursor name) l).take size).map name).count (name x) := by
    rw [next_returned hf, map_append, count_append]
  constructor
  · intro hp
    by_cases hold : w.Passed key (key x)
    · rw [hadd, hcount.once hold, hl.count_eq_zero hsub hx fun h => (hpage.1 h).2 hold]
    · rw [hadd, hcount.never hold, (hl.sublist hsub).count_eq_one (hpage.2 ⟨hp, hold⟩)]
  · intro hp
    have hold : ¬ w.Passed key (key x) := fun h => hp (h.next hl hk hf hsize hmore)
    rw [hadd, hcount.never hold, hl.count_eq_zero hsub hx fun h => hp (hpage.1 h).1]

end More

/-! ## The whole walk -/

section Run

variable {lists : ℕ → List α} (hsize : 0 < size) (hl : ∀ n, Listing name key (lists n))

variable (hk : ∀ n, (Walk.run name size lists n).finished = false →
  Kept name key (Walk.run name size lists n) (lists n))

theorem run_succ (n : ℕ) :
    Walk.run name size lists (n + 1) = (Walk.run name size lists n).next name size (lists n) := rfl

theorem unfinished_of_succ {n} (h : (Walk.run name size lists (n + 1)).finished = false) :
    (Walk.run name size lists n).finished = false := by
  by_contra hf
  rw [run_succ, Walk.next, if_pos (by simpa using hf)] at h
  exact hf h

include hsize hl hk

theorem Walk.finishes_from (b n : ℕ) (hc : c ∈ (Walk.run name size lists n).returned.getLast?)
    (hb : key c < b) : ∃ m, (Walk.run name size lists m).finished := by
  induction b generalizing n c with
  | zero => exact absurd hb (Nat.not_lt_zero _)
  | succ b ih =>
    by_cases hf : (Walk.run name size lists (n + 1)).finished
    · exact ⟨n + 1, hf⟩
    · have hmore : (Walk.run name size lists (n + 1)).finished = false := by simpa using hf
      have hprev := unfinished_of_succ hmore
      obtain ⟨c', -, hlast, hnew, -⟩ := last_of_next (hl n) (hk n hprev) hprev hsize hmore
      have hlt := lt_of_not_ge fun h => hnew ⟨c, hc, h⟩
      exact ih (n + 1) (c := c') hlast (by omega)

theorem Walk.run_finishes : ∃ n, (Walk.run name size lists n).finished := by
  by_cases hf : (Walk.run name size lists 1).finished
  · exact ⟨1, hf⟩
  · have hmore : (Walk.run name size lists 1).finished = false := by simpa using hf
    obtain ⟨c, -, hlast, -⟩ := last_of_next (hl 0) (hk 0 rfl) rfl hsize hmore
    exact Walk.finishes_from hsize hl hk (key c + 1) 1 hlast (Nat.lt_succ_self _)

theorem counted_run {n} (hf : (Walk.run name size lists n).finished = false)
    (hi : ∀ m ≤ n, Present name key i t (lists m)) :
    (Walk.run name size lists n).Counted name key i t := by
  induction n with
  | zero =>
    refine ⟨?_, fun _ => rfl⟩
    rintro ⟨c, hc, -⟩
    cases hc
  | succ n ih =>
    have hprev := unfinished_of_succ hf
    have hcount := ih hprev fun m hm => hi m (by omega)
    refine hcount.next (hl n) (hk n hprev) hprev hsize hf (hi n (by omega)) fun c hc hkey => ?_
    obtain ⟨x, hx, rfl, rfl⟩ := hi (n + 1) le_rfl
    exact (((hk (n + 1) hf) c hc).2 x hx hkey.symm).symm

/-- If each cursor is kept, the walk ends and has returned every item that was always there once. -/
theorem Walk.complete :
    ∃ n, (Walk.run name size lists (n + 1)).finished ∧
      (Walk.run name size lists n).finished = false ∧
      ∀ i t, (∀ m ≤ n, Present name key i t (lists m)) →
        ((Walk.run name size lists (n + 1)).returned.map name).count i = 1 := by
  have hfin := Walk.run_finishes hsize hl hk
  obtain ⟨n, hn⟩ : ∃ n, Nat.find hfin = n + 1 := by
    refine Nat.exists_eq_succ_of_ne_zero fun h => ?_
    have := Nat.find_spec hfin
    rw [h] at this
    cases this
  have hlast : (Walk.run name size lists n).finished = false := by
    simpa using Nat.find_min hfin (m := n) (by omega)
  have hdone := hn ▸ Nat.find_spec hfin
  refine ⟨n, hdone, hlast, fun i t hi => ?_⟩
  exact count_of_finished (hl n) (hk n hlast) hlast (counted_run hsize hl hk hlast hi)
    (hi n le_rfl) hdone

end Run

end Paging
