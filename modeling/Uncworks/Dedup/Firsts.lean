import Mathlib.Data.Finset.Card

/-!
# One element for each key

A list in which each key is left once keeps every element without a key and one for each key.
Keeping the first element of each key gives such a list, and all of them have the same length.
-/

namespace Dedup

open List

variable {α κ : Type*} (key : α → Option κ)

/-- What is left of a list if the elements with the same key count once. -/
structure OnePer (all kept : List α) : Prop where
  sublist : kept.Sublist all
  free : kept.filter (fun a => (key a).isNone) = all.filter fun a => (key a).isNone
  nodup : (kept.filterMap key).Nodup
  covers : ∀ k ∈ all.filterMap key, k ∈ kept.filterMap key

theorem length_eq_filter_add_filterMap (l : List α) :
    l.length = (l.filter fun a => (key a).isNone).length + (l.filterMap key).length := by
  induction l with
  | nil => rfl
  | cons a l ih =>
    cases hkey : key a with
    | none | some k => simp [hkey]; omega

variable {key} [DecidableEq κ]

theorem OnePer.length_eq {all kept} (h : OnePer key all kept) :
    kept.length =
      (all.filter fun a => (key a).isNone).length + (all.filterMap key).toFinset.card := by
  have hkeys : (kept.filterMap key).toFinset = (all.filterMap key).toFinset := by
    ext k
    simp only [mem_toFinset]
    exact ⟨fun hk => (h.sublist.filterMap key).subset hk, h.covers k⟩
  rw [length_eq_filter_add_filterMap key, h.free, ← hkeys, toFinset_card_of_nodup h.nodup]

variable (key)

def firsts : (seen : List κ) → List α → List α
  | _, [] => []
  | seen, a :: l =>
    match key a with
    | none => a :: firsts seen l
    | some k => if k ∈ seen then firsts seen l else a :: firsts (k :: seen) l

variable {key} {seen : List κ} {a : α} {l : List α} {k : κ}

theorem firsts_cons_none (h : key a = none) : firsts key seen (a :: l) = a :: firsts key seen l := by
  rw [firsts, h]

theorem firsts_cons_seen (h : key a = some k) (hk : k ∈ seen) :
    firsts key seen (a :: l) = firsts key seen l := by
  rw [firsts, h]
  exact if_pos hk

theorem firsts_cons_new (h : key a = some k) (hk : k ∉ seen) :
    firsts key seen (a :: l) = a :: firsts key (k :: seen) l := by
  rw [firsts, h]
  exact if_neg hk

theorem firsts_congr {seen'} (h : ∀ k, k ∈ seen ↔ k ∈ seen') :
    firsts key seen l = firsts key seen' l := by
  induction l generalizing seen seen' with
  | nil => rfl
  | cons a l ih =>
    cases hkey : key a with
    | none => rw [firsts_cons_none hkey, firsts_cons_none hkey, ih h]
    | some k =>
      by_cases hk : k ∈ seen
      · rw [firsts_cons_seen hkey hk, firsts_cons_seen hkey ((h k).1 hk), ih h]
      · rw [firsts_cons_new hkey hk, firsts_cons_new hkey (mt (h k).2 hk), ih]
        simp [h]

theorem firsts_sublist : (firsts key seen l).Sublist l := by
  induction l generalizing seen with
  | nil => exact .slnil
  | cons a l ih =>
    cases hkey : key a with
    | none =>
      rw [firsts_cons_none hkey]
      exact ih.cons_cons a
    | some k =>
      by_cases hk : k ∈ seen
      · rw [firsts_cons_seen hkey hk]
        exact ih.cons a
      · rw [firsts_cons_new hkey hk]
        exact ih.cons_cons a

theorem filter_firsts :
    (firsts key seen l).filter (fun a => (key a).isNone) = l.filter fun a => (key a).isNone := by
  induction l generalizing seen with
  | nil => rfl
  | cons a l ih =>
    cases hkey : key a with
    | none => simp [firsts_cons_none hkey, hkey, ih]
    | some k =>
      by_cases hk : k ∈ seen
      · simp [firsts_cons_seen hkey hk, hkey, ih]
      · simp [firsts_cons_new hkey hk, hkey, ih]

theorem mem_filterMap_firsts :
    k ∈ (firsts key seen l).filterMap key ↔ k ∈ l.filterMap key ∧ k ∉ seen := by
  induction l generalizing seen with
  | nil => simp [firsts]
  | cons a l ih =>
    cases hkey : key a with
    | none =>
      rw [firsts_cons_none hkey, filterMap_cons_none hkey, filterMap_cons_none hkey, ih]
    | some j =>
      by_cases hj : j ∈ seen
      · rw [firsts_cons_seen hkey hj]
        grind
      · rw [firsts_cons_new hkey hj, filterMap_cons_some hkey, mem_cons]
        grind

theorem nodup_filterMap_firsts : ((firsts key seen l).filterMap key).Nodup := by
  induction l generalizing seen with
  | nil => exact .nil
  | cons a l ih =>
    cases hkey : key a with
    | none =>
      rw [firsts_cons_none hkey, filterMap_cons_none hkey]
      exact ih
    | some j =>
      by_cases hj : j ∈ seen
      · rw [firsts_cons_seen hkey hj]
        exact ih
      · rw [firsts_cons_new hkey hj, filterMap_cons_some hkey]
        refine nodup_cons.2 ⟨fun hmem => ?_, ih⟩
        exact (mem_filterMap_firsts.1 hmem).2 mem_cons_self

theorem onePer_firsts (l : List α) : OnePer key l (firsts key [] l) where
  sublist := firsts_sublist
  free := filter_firsts
  nodup := nodup_filterMap_firsts
  covers _ hk := mem_filterMap_firsts.2 ⟨hk, not_mem_nil⟩

end Dedup
