import Mathlib.Data.List.Sort

/-!
# Go slices

Slices share the arrays they are cut from.  `append` writes behind the end of its slice if there is room, and otherwise
copies the slice to a new array; removing an element with `append(s[:i], s[i+1:]...)` moves the
elements behind it in place.
-/

namespace Go

open List

/-- The arrays of slices that may share memory, in the order in which they were made. -/
abbrev Heap (α : Type*) := List (List α)

/-- A slice from the start of an array; the nil slice has no array. -/
structure Slice where
  array : Option ℕ := none
  len : ℕ := 0
  deriving DecidableEq

namespace Slice

variable {α : Type*} (h : Heap α) (s t : Slice) (x : α) (spare : List α) (i : ℕ)

def cells : List α := (s.array.bind (h[·]?)).getD []

def contents : List α := (s.cells h).take s.len

structure Valid : Prop where
  len : s.len ≤ (s.cells h).length
  array : ∀ a ∈ s.array, a < h.length

def overwrite (cells : List α) : Heap α :=
  match s.array with
  | some a => h.set a cells
  | none => h

/-- `append(s, x)`; `spare` are the unused cells of the array that is made if there is no room. -/
def append : Heap α × Slice :=
  if s.len < (s.cells h).length then
    (s.overwrite h ((s.cells h).set s.len x), { s with len := s.len + 1 })
  else (h ++ [s.contents h ++ x :: spare], { array := some h.length, len := s.len + 1 })

def removeAt : Heap α × Slice :=
  (s.overwrite h ((s.contents h).eraseIdx i ++ (s.cells h).drop (s.len - 1)),
    { s with len := s.len - 1 })

variable {h s t x spare i}

theorem length_contents (hs : s.Valid h) : (s.contents h).length = s.len := by
  rw [contents, length_take, Nat.min_eq_left hs.len]

theorem valid_nil (h : Heap α) : Valid h {} := ⟨Nat.zero_le _, nofun⟩

theorem contents_nil (h : Heap α) : contents h {} = [] := rfl

theorem cells_overwrite (hs : s.Valid h) (hlen : 0 < (s.cells h).length) (cells : List α) :
    s.cells (s.overwrite h cells) = cells := by
  unfold Slice.cells overwrite at *
  cases ha : s.array with
  | none => simp [ha] at hlen
  | some a => simp [hs.array a ha]

theorem cells_overwrite_of_ne (hne : t.array ≠ s.array) (cells : List α) :
    t.cells (s.overwrite h cells) = t.cells h := by
  unfold Slice.cells overwrite
  cases hs : s.array with
  | none => rfl
  | some a =>
    cases ht : t.array with
    | none => rfl
    | some b =>
      have hab : a ≠ b := by
        rintro rfl
        exact hne (ht.trans hs.symm)
      simp [getElem?_set_ne hab]

theorem length_overwrite (cells : List α) : (s.overwrite h cells).length = h.length := by
  unfold overwrite
  split <;> simp

theorem cells_append (hs : s.Valid h) (new : List α) : s.cells (h ++ [new]) = s.cells h := by
  unfold Slice.cells
  cases ha : s.array with
  | none => rfl
  | some a => simp [getElem?_append_left (hs.array a ha)]

theorem contents_new (l new : List α) :
    contents (h ++ [l ++ new]) { array := some h.length, len := l.length } = l := by
  simp [contents, cells]

theorem contents_append (hs : s.Valid h) :
    (s.append h x spare).2.contents (s.append h x spare).1 = s.contents h ++ [x] := by
  have hlen := length_contents hs
  unfold append
  split_ifs with hlt
  · show take (s.len + 1) (s.cells (s.overwrite h _)) = _
    rw [cells_overwrite hs (by omega), take_add_one, getElem?_set_self hlt,
      take_set_of_le (Nat.le_refl _)]
    rfl
  · have hnew := contents_new (h := h) (s.contents h ++ [x]) spare
    rwa [length_append, hlen, length_singleton, append_assoc] at hnew

theorem valid_append (hs : s.Valid h) : (s.append h x spare).2.Valid (s.append h x spare).1 := by
  have hlen := length_contents hs
  unfold append
  split_ifs with hlt
  · refine ⟨?_, fun a ha => ?_⟩
    · show s.len + 1 ≤ (s.cells (s.overwrite h _)).length
      rw [cells_overwrite hs (by omega), length_set]
      exact hlt
    · rw [length_overwrite]
      exact hs.array a ha
  · refine ⟨?_, ?_⟩
    · simp [cells, hlen]
    · simp

theorem contents_append_of_le (ht : t.Valid h) (hs : s.Valid h)
    (hle : t.array = s.array → t.len ≤ s.len) :
    t.contents (s.append h x spare).1 = t.contents h := by
  unfold append
  split_ifs with hlt
  · by_cases harray : t.array = s.array
    · have hcells : ∀ h : Heap α, t.cells h = s.cells h := fun h => by rw [cells, cells, harray]
      rw [contents, hcells, cells_overwrite hs (by omega), take_set_of_le (hle harray), ← hcells]
      rfl
    · rw [contents, cells_overwrite_of_ne harray]
      rfl
  · rw [contents, cells_append ht]
    rfl

theorem valid_append_of_le (ht : t.Valid h) (hs : s.Valid h) : t.Valid (s.append h x spare).1 := by
  unfold append
  split_ifs with hlt
  · refine ⟨?_, fun a ha => by rw [length_overwrite]; exact ht.array a ha⟩
    by_cases harray : t.array = s.array
    · have hcells : ∀ h : Heap α, t.cells h = s.cells h := fun h => by rw [cells, cells, harray]
      rw [hcells, cells_overwrite hs (by omega), length_set, ← hcells]
      exact ht.len
    · rw [cells_overwrite_of_ne harray]
      exact ht.len
  · refine ⟨?_, fun a ha => ?_⟩
    · rw [cells_append ht]
      exact ht.len
    · have := ht.array a ha
      simp
      omega

theorem append_le (ht : t.Valid h) (hle : t.array = s.array → t.len ≤ s.len) :
    t.array = (s.append h x spare).2.array → t.len ≤ (s.append h x spare).2.len := by
  unfold append
  split_ifs with hlt
  · intro harray
    exact Nat.le_succ_of_le (hle harray)
  · intro harray
    exact absurd (ht.array h.length harray) (Nat.lt_irrefl _)

section RemoveAt

variable (hs : s.Valid h) (hi : i < s.len)
include hs hi

theorem length_eraseIdx_contents : ((s.contents h).eraseIdx i).length = s.len - 1 := by
  rw [length_eraseIdx_of_lt (by rw [length_contents hs]; exact hi), length_contents hs]

theorem cells_removeAt : s.cells (s.removeAt h i).1 =
    (s.contents h).eraseIdx i ++ (s.cells h).drop (s.len - 1) :=
  cells_overwrite hs (Nat.lt_of_lt_of_le (Nat.zero_lt_of_lt hi) hs.len) _

theorem contents_removeAt :
    (s.removeAt h i).2.contents (s.removeAt h i).1 = (s.contents h).eraseIdx i := by
  show take (s.len - 1) (s.cells _) = _
  rw [cells_removeAt hs hi]
  exact take_left' (length_eraseIdx_contents hs hi)

theorem valid_removeAt : (s.removeAt h i).2.Valid (s.removeAt h i).1 := by
  refine ⟨?_, fun a ha => ?_⟩
  · show s.len - 1 ≤ (s.cells _).length
    rw [cells_removeAt hs hi, length_append, length_eraseIdx_contents hs hi]
    exact Nat.le_add_right _ _
  · show a < (s.overwrite h _).length
    rw [length_overwrite]
    exact hs.array a ha

end RemoveAt

/-- A slice that is iterated over while the first element is removed misses the second. -/
example : contents (removeAt [[1, 2, 3]] { array := some 0, len := 3 } 0).1
    { array := some 0, len := 3 } = [2, 3, 3] := by decide

end Slice

/-! ## `sort.Slice` -/

/-- What is known of `sort.Slice`: the elements are in order afterwards; equivalent ones in any
order. -/
structure SliceSort {α : Type*} (less : α → α → Bool) where
  sort : List α → List α
  perm (l : List α) : (sort l).Perm l
  sorted (l : List α) : (sort l).Pairwise fun a b => ¬ less b a

/-- A sort by a key, largest first, that keeps the order of elements with the same key. -/
def SliceSort.stable {α : Type*} (key : α → ℕ) : SliceSort fun a b => key b < key a where
  sort l := l.insertionSort fun a b => key b ≤ key a
  perm l := l.perm_insertionSort _
  sorted l := by
    have : Std.Total fun a b : α => key b ≤ key a := ⟨fun a b => Nat.le_total _ _⟩
    have : IsTrans α fun a b => key b ≤ key a := ⟨fun _ _ _ hab hbc => Nat.le_trans hbc hab⟩
    refine (l.pairwise_insertionSort fun a b => key b ≤ key a).imp fun h => ?_
    simpa using h

end Go
