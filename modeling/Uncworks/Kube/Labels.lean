import Mathlib.Data.List.DropRight

/-!
# Labels of Kubernetes objects

The label values that the API server accepts: at most 63 letters, digits, `-`, `_` and `.`, with a
letter or a digit at both ends; the empty value is accepted, too.  An object with any other value is
rejected as a whole.
-/

namespace Kube

open List

def isLabelChar (c : Char) : Bool := c.isAlphanum || c = '-' || c = '_' || c = '.'

def maxLabelLength : ℕ := 63

def validLabelValue (v : String) : Bool :=
  v.toList.all isLabelChar && v.toList.head?.all Char.isAlphanum &&
    v.toList.getLast?.all Char.isAlphanum && v.toList.length ≤ maxLabelLength

abbrev Labels := List (String × String)

namespace Labels

def set (labels : Labels) (key value : String) : Labels :=
  (key, value) :: labels.filter fun l => l.1 ≠ key

def admitted (labels : Labels) : Bool := labels.all fun l => validLabelValue l.2

variable {labels : Labels} {key key' value v : String}

theorem lookup_set : (labels.set key value).lookup key = some value := by
  simp [set]

theorem lookup_filter_ne (h : key' ≠ key) :
    (labels.filter fun l => l.1 ≠ key).lookup key' = labels.lookup key' := by
  induction labels with
  | nil => rfl
  | cons l labels ih =>
    by_cases hl : l.1 = key
    · rw [filter_cons_of_neg (by simpa using hl), ih, lookup_cons, hl, beq_false_of_ne h]
    · rw [filter_cons_of_pos (by simpa using hl), lookup_cons, lookup_cons, ih]

theorem lookup_set_ne (h : key' ≠ key) : (labels.set key value).lookup key' = labels.lookup key' := by
  rw [set, lookup_cons, beq_false_of_ne h]
  exact lookup_filter_ne h

def setAll (labels more : Labels) : Labels := more.foldl (fun labels l => labels.set l.1 l.2) labels

theorem admitted_iff : labels.admitted ↔ ∀ l ∈ labels, validLabelValue l.2 := all_eq_true

theorem mem_set {l} : l ∈ labels.set key value ↔ l = (key, value) ∨ l ∈ labels ∧ l.1 ≠ key := by
  rw [set, mem_cons, mem_filter, decide_eq_true_iff]

theorem admitted_setAll_iff {more} (hkeys : (more.map Prod.fst).Nodup) :
    (labels.setAll more).admitted ↔
      (∀ l ∈ labels, l.1 ∉ more.map Prod.fst → validLabelValue l.2) ∧
        ∀ l ∈ more, validLabelValue l.2 := by
  induction more generalizing labels with
  | nil => simp [setAll, admitted]
  | cons new more ih =>
    rw [map_cons, nodup_cons] at hkeys
    have hset : setAll labels (new :: more) = (labels.set new.1 new.2).setAll more := rfl
    rw [hset, ih hkeys.2, forall_mem_cons, map_cons]
    constructor
    · rintro ⟨hlabels, hmore⟩
      refine ⟨fun l hl hkey => ?_, hlabels new (mem_set.2 (.inl rfl)) hkeys.1, hmore⟩
      rw [mem_cons, not_or] at hkey
      exact hlabels l (mem_set.2 (.inr ⟨hl, hkey.1⟩)) hkey.2
    · rintro ⟨hlabels, hnew, hmore⟩
      refine ⟨fun l hl hkey => ?_, hmore⟩
      obtain rfl | ⟨hl, hne⟩ := mem_set.1 hl
      · exact hnew
      · exact hlabels l hl (by simpa [hne] using hkey)

theorem admitted_setAll {more} (h : labels.admitted) (hkeys : (more.map Prod.fst).Nodup) :
    (labels.setAll more).admitted ↔ ∀ l ∈ more, validLabelValue l.2 := by
  rw [admitted_setAll_iff hkeys, and_iff_right]
  exact fun l hl _ => admitted_iff.1 h l hl

theorem lookup_eq_none (h : key ∉ labels.map Prod.fst) : labels.lookup key = none := by
  refine lookup_eq_none_iff.2 fun l hl => ?_
  rw [bne_iff_ne]
  exact fun heq => h (heq ▸ mem_map_of_mem hl)

theorem lookup_cons_self (l : String × String) : lookup l.1 (l :: labels) = some l.2 := by
  rw [lookup_cons, beq_self_eq_true]

theorem lookup_cons_ne {l} (h : key ≠ l.1) : lookup key (l :: labels) = lookup key labels := by
  rw [lookup_cons, beq_false_of_ne h]

theorem lookup_filter (p : String → Bool) (hkeys : (labels.map Prod.fst).Nodup) :
    lookup key (labels.filter fun l => p l.2) = (labels.lookup key).filter p := by
  induction labels with
  | nil => rfl
  | cons l labels ih =>
    rw [map_cons, nodup_cons] at hkeys
    by_cases hkey : key = l.1
    · subst hkey
      have hnone : lookup l.1 (labels.filter fun l => p l.2) = none :=
        lookup_eq_none fun hmem => hkeys.1 ((filter_sublist.map Prod.fst).subset hmem)
      rw [lookup_cons_self, filter_cons, Option.filter_some]
      split_ifs
      · exact lookup_cons_self l
      · exact hnone
    · rw [lookup_cons_ne hkey, ← ih hkeys.2, filter_cons]
      split_ifs
      · exact lookup_cons_ne hkey
      · rfl

theorem lookup_setAll {more} (hkeys : (more.map Prod.fst).Nodup) :
    (labels.setAll more).lookup key = (lookup key more).or (labels.lookup key) := by
  induction more generalizing labels with
  | nil => rfl
  | cons new more ih =>
    rw [map_cons, nodup_cons] at hkeys
    have hset : setAll labels (new :: more) = (labels.set new.1 new.2).setAll more := rfl
    rw [hset, ih hkeys.2]
    by_cases hkey : key = new.1
    · rw [lookup_eq_none (hkey ▸ hkeys.1), hkey, lookup_set]
      rw [lookup_cons, beq_self_eq_true]
      rfl
    · rw [lookup_set_ne hkey, lookup_cons, beq_false_of_ne hkey]

theorem valid_of_lookup (h : labels.admitted) (hv : labels.lookup key = some v) :
    validLabelValue v := by
  obtain ⟨before, after, rfl, -⟩ := lookup_eq_some_iff.1 hv
  exact all_eq_true.1 h (key, v) (by simp)

end Labels

/-! ## Cutting texts to label values -/

section Cut

variable {text : List Char}

structure LabelText (text : List Char) : Prop where
  chars : ∀ c ∈ text, isLabelChar c
  head : ∀ c ∈ text.head?, c.isAlphanum
  last : ∀ c ∈ text.getLast?, c.isAlphanum

theorem validLabelValue_iff {v} :
    validLabelValue v ↔ LabelText v.toList ∧ v.toList.length ≤ maxLabelLength := by
  have hall : ∀ o : Option Char, o.all Char.isAlphanum ↔ ∀ c ∈ o, c.isAlphanum := by
    intro o
    cases o <;> simp
  rw [validLabelValue, Bool.and_eq_true, Bool.and_eq_true, Bool.and_eq_true, all_eq_true, hall,
    hall, decide_eq_true_iff]
  exact ⟨fun h => ⟨⟨h.1.1.1, h.1.1.2, h.1.2⟩, h.2⟩, fun h => ⟨⟨⟨h.1.1, h.1.2⟩, h.1.3⟩, h.2⟩⟩

/-- A text that is cut at `n` characters keeps a letter or a digit at its end, if it is not longer
or the last character that is left is one. -/
theorem LabelText.take_iff (h : LabelText text) {n} :
    LabelText (text.take (n + 1)) ↔
      text.length ≤ n + 1 ∨ ∃ c, text[n]? = some c ∧ c.isAlphanum := by
  by_cases hlen : text.length ≤ n + 1
  · rw [take_of_length_le hlen]
    exact ⟨fun _ => .inl hlen, fun _ => h⟩
  · have hlt : n < text.length := by omega
    have hlast : (text.take (n + 1)).getLast? = some (text[n]) := by
      rw [getLast?_take]
      simp
    constructor
    · intro htake
      exact .inr ⟨text[n], getElem?_eq_getElem hlt, htake.last _ hlast⟩
    · rintro (hshort | ⟨c, hc, hal⟩)
      · exact absurd hshort hlen
      · refine ⟨fun c hc => h.chars c (mem_of_mem_take hc), ?_, ?_⟩
        · intro d hd
          refine h.head d ?_
          rwa [head?_take, if_neg (Nat.succ_ne_zero n)] at hd
        · intro d hd
          rw [hlast, ← getElem?_eq_getElem hlt, hc] at hd
          exact Option.some.inj hd ▸ hal

end Cut

end Kube
