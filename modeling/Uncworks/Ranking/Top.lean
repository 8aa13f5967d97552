import Mathlib.Data.List.Sort

/-!
# The best elements of a list

`IsTop score n all top` says that `top` has the `n` elements of `all` with the greatest scores,
greatest first.  Choosing the best of a set of candidates finds the best of all elements exactly if
each element that is no candidate is outdone by enough candidates (`IsTop.isTop_all_iff`).
-/

namespace Ranking

open List

variable {α β : Type*} [LinearOrder β] {score : α → β} {n : ℕ} {all cand cut rest top : List α}

structure IsTop (score : α → β) (n : ℕ) (all top : List α) : Prop where
  length : top.length = min n all.length
  sorted : top.Pairwise fun a b => score b ≤ score a
  best : ∃ rest, (top ++ rest).Perm all ∧ ∀ a ∈ top, ∀ b ∈ rest, score b ≤ score a

def best (score : α → β) (n : ℕ) (all : List α) : List α :=
  (all.insertionSort fun a b => score b ≤ score a).take n

theorem isTop_take {sorted : List α} (hperm : sorted.Perm all)
    (hsorted : sorted.Pairwise fun a b => score b ≤ score a) : IsTop score n all (sorted.take n) where
  length := by rw [length_take, hperm.length_eq]
  sorted := hsorted.sublist (take_sublist n sorted)
  best := by
    refine ⟨sorted.drop n, by rwa [take_append_drop], ?_⟩
    rw [← take_append_drop n sorted, pairwise_append] at hsorted
    exact hsorted.2.2

theorem pairwise_insertionSort_score (score : α → β) (all : List α) :
    (all.insertionSort fun a b => score b ≤ score a).Pairwise fun a b => score b ≤ score a := by
  exact all.pairwise_insertionSort fun a b => score b ≤ score a

theorem isTop_best (score : α → β) (n : ℕ) (all : List α) : IsTop score n all (best score n all) :=
  isTop_take (all.perm_insertionSort _) (pairwise_insertionSort_score score all)

namespace IsTop

theorem le_of_mem (h : IsTop score n all top) (hperm : (top ++ rest).Perm all) {a b} (ha : a ∈ top)
    (hb : b ∈ rest) : score b ≤ score a := by
  obtain ⟨rest', hperm', hle⟩ := h.best
  have hrest := (perm_append_left_iff top).1 (hperm.trans hperm'.symm)
  exact hle a ha b (hrest.mem_iff.1 hb)

theorem length_eq (h : IsTop score n all top) (hperm : (top ++ rest).Perm all) {b} (hb : b ∈ rest) :
    top.length = n := by
  have hlen := h.length
  have hpos := length_pos_of_mem hb
  rw [← hperm.length_eq, length_append] at hlen
  omega

theorem le_countP (h : IsTop score n all top) (hperm : (top ++ rest).Perm all) {b} (hb : b ∈ rest) :
    n ≤ top.countP fun a => score b ≤ score a := by
  have hall := countP_eq_length.2 fun a ha => decide_eq_true (h.le_of_mem hperm ha hb)
  rw [hall, h.length_eq hperm hb]

/-- An element that at least `n` others are as good as is not better than the best `n` of them. -/
theorem le_of_le_countP (h : IsTop score n all top) {x} (hx : n ≤ all.countP fun a => x ≤ score a)
    {a} (ha : a ∈ top) : x ≤ score a := by
  by_contra hlt
  obtain ⟨rest, hperm, hle⟩ := h.best
  -- nothing behind `a` is as good, so there are fewer than `n` such elements
  have hrest : rest.countP (fun a => x ≤ score a) = 0 :=
    countP_eq_zero.2 fun b hb => by simpa using (hle a ha b hb).trans_lt (not_le.1 hlt)
  have htop : top.countP (fun a => x ≤ score a) < top.length := by
    refine lt_of_le_of_ne countP_le_length fun heq => hlt ?_
    simpa using countP_eq_length.1 heq a ha
  have hlen := h.length
  rw [← hperm.countP_eq, countP_append] at hx
  omega

/-- The best of some candidates are the best of all exactly if each element that is no candidate is
outdone by `n` candidates. -/
theorem isTop_all_iff (h : IsTop score n cand top) (hall : (cand ++ cut).Perm all) :
    IsTop score n all top ↔ ∀ c ∈ cut, n ≤ cand.countP fun a => score c ≤ score a := by
  obtain ⟨rest, hperm, hle⟩ := h.best
  have hall' : (top ++ (rest ++ cut)).Perm all := by
    rw [← append_assoc]
    exact (hperm.append_right cut).trans hall
  constructor
  · intro htop c hc
    have hcount := htop.le_countP hall' (mem_append_right rest hc)
    rw [← hperm.countP_eq, countP_append]
    exact Nat.le_add_right_of_le hcount
  · intro hcut
    refine ⟨?_, h.sorted, rest ++ cut, hall', fun a ha b hb => ?_⟩
    · have hlen := h.length
      rw [← hall.length_eq, length_append]
      cases hc : cut with
      | nil => simpa using hlen
      | cons c cut =>
        have hle := (hcut c (hc ▸ mem_cons_self)).trans countP_le_length
        omega
    · obtain hb | hb := mem_append.1 hb
      · exact hle a ha b hb
      · exact h.le_of_le_countP (hcut b hb) ha

end IsTop

end Ranking
