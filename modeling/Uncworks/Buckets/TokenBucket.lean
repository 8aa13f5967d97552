import Mathlib.Data.List.Sort
import Mathlib.Tactic.Linarith

/-!
# Token buckets

A bucket holds at most `cap` tokens and gains `rate` tokens per unit of time; a request takes one
token, and is rejected if there is none.  In an interval of length `T` no more than `cap + rate * T`
requests are admitted.
-/

namespace TokenBucket

open List

structure Bucket where
  tokens : ℚ
  time : ℚ

namespace Bucket

variable (cap rate : ℚ)

def level (b : Bucket) (t : ℚ) : ℚ := min cap (b.tokens + rate * (t - b.time))

def take (b : Bucket) (t : ℚ) : Bucket × Bool :=
  if b.level cap rate t < 1 then (⟨b.level cap rate t, t⟩, false)
  else (⟨b.level cap rate t - 1, t⟩, true)

def after (b : Bucket) (ts : List ℚ) : Bucket := ts.foldl (fun b t => (b.take cap rate t).1) b

def answers : Bucket → List ℚ → List (ℚ × Bool)
  | _, [] => []
  | b, t :: ts => (t, (b.take cap rate t).2) :: answers (b.take cap rate t).1 ts

variable {cap rate} {b b' : Bucket} {t : ℚ}

theorem take_congr (h : b.level cap rate t = b'.level cap rate t) :
    b.take cap rate t = b'.take cap rate t := by
  simp [take, h]

@[simp]
theorem time_take : (b.take cap rate t).1.time = t := by
  rw [take]
  split_ifs <;> rfl

theorem take_snd_eq_false : (b.take cap rate t).2 = false ↔ b.level cap rate t < 1 := by
  rw [take]
  split_ifs with h <;> simp [h]

theorem tokens_take_add :
    (b.take cap rate t).1.tokens + (if (b.take cap rate t).2 then 1 else 0) = b.level cap rate t := by
  rw [take]
  split_ifs <;> simp_all

theorem level_le : b.level cap rate t ≤ cap := min_le_left _ _

theorem level_nonneg (hcap : 0 ≤ cap) (hrate : 0 ≤ rate) (hb : 0 ≤ b.tokens) (ht : b.time ≤ t) :
    0 ≤ b.level cap rate t :=
  le_min hcap (add_nonneg hb (mul_nonneg hrate (sub_nonneg.2 ht)))

theorem tokens_take_nonneg (h : 0 ≤ b.level cap rate t) : 0 ≤ (b.take cap rate t).1.tokens := by
  rw [take]
  split_ifs with hlt
  · exact h
  · exact sub_nonneg.2 (not_lt.1 hlt)

theorem level_eq_cap (h : cap ≤ b.tokens + rate * (t - b.time)) : b.level cap rate t = cap :=
  min_eq_left h

theorem after_append (ts : List ℚ) :
    b.after cap rate (ts ++ [t]) = ((b.after cap rate ts).take cap rate t).1 := by
  rw [after, foldl_append]
  rfl

theorem answers_append (ts : List ℚ) :
    b.answers cap rate (ts ++ [t]) =
      b.answers cap rate ts ++ [(t, ((b.after cap rate ts).take cap rate t).2)] := by
  induction ts generalizing b with
  | nil => rfl
  | cons u ts ih =>
    rw [cons_append, answers, answers, ih]
    rfl

theorem answer_eq {ts before rest p} (h : b.answers cap rate ts = before ++ p :: rest) :
    p.2 = ((b.after cap rate (before.map Prod.fst)).take cap rate p.1).2 := by
  induction ts generalizing b before with
  | nil => simp [answers] at h
  | cons t ts ih =>
    cases before with
    | nil =>
      cases h
      rfl
    | cons q before =>
      obtain ⟨rfl, hrest⟩ := cons_eq_cons.1 h
      have hanswer := ih hrest
      exact hanswer

/-! ## How many requests are admitted -/

def admitted (answers : List (ℚ × Bool)) (a e : ℚ) : ℕ :=
  answers.countP fun p => p.2 && a ≤ p.1 && p.1 < e

theorem admitted_cons (p : ℚ × Bool) (answers : List (ℚ × Bool)) (a e : ℚ) :
    (admitted (p :: answers) a e : ℚ) =
      admitted answers a e + if p.2 ∧ a ≤ p.1 ∧ p.1 < e then 1 else 0 := by
  rw [admitted, countP_cons]
  push_cast
  congr 1
  simp [and_assoc]

theorem map_fst_answers (ts : List ℚ) : (b.answers cap rate ts).map Prod.fst = ts := by
  induction ts generalizing b with
  | nil => rfl
  | cons t ts ih => rw [answers, map_cons, ih]

variable {ts : List ℚ} {a e : ℚ}

theorem admitted_eq_zero (h : ∀ t ∈ ts, e ≤ t) : admitted (b.answers cap rate ts) a e = 0 := by
  refine countP_eq_zero.2 fun p hp => ?_
  have hmem : p.1 ∈ ts := map_fst_answers (b := b) ts ▸ mem_map_of_mem hp
  simp [(h p.1 hmem).not_gt]

theorem admitted_cons_le
    (h : (admitted ((b.take cap rate t).1.answers cap rate ts) a e : ℚ) ≤
      (b.take cap rate t).1.tokens + rate * (e - t)) :
    (admitted (b.answers cap rate (t :: ts)) a e : ℚ) ≤ b.level cap rate t + rate * (e - t) := by
  have hcost : (if (b.take cap rate t).2 ∧ a ≤ t ∧ t < e then 1 else 0 : ℚ) ≤
      if (b.take cap rate t).2 then 1 else 0 := by
    split_ifs <;> simp_all
  rw [answers, admitted_cons, ← tokens_take_add]
  linarith

section Bounds

variable (hcap : 0 ≤ cap) (hrate : 0 ≤ rate)
include hcap hrate

theorem admitted_le_tokens (hb : 0 ≤ b.tokens) (he : b.time ≤ e)
    (hts : (b.time :: ts).Pairwise (· ≤ ·)) :
    (admitted (b.answers cap rate ts) a e : ℚ) ≤ b.tokens + rate * (e - b.time) := by
  have hgain := mul_nonneg hrate (sub_nonneg.2 he)
  induction ts generalizing b with
  | nil => exact add_nonneg hb hgain
  | cons t ts ih =>
    obtain ⟨hfirst, hts⟩ := pairwise_cons.1 hts
    have ht := hfirst t mem_cons_self
    rcases lt_or_ge t e with hlt | hge
    · have hrest := ih (tokens_take_nonneg (level_nonneg hcap hrate hb ht)) (time_take.trans_le hlt.le)
        (time_take.symm ▸ hts) (mul_nonneg hrate (by simpa using hlt.le))
      rw [time_take] at hrest
      have hlevel : b.level cap rate t ≤ b.tokens + rate * (t - b.time) := min_le_right _ _
      linarith [admitted_cons_le hrest]
    · rw [admitted_eq_zero fun u hu => ?_]
      · exact add_nonneg hb hgain
      · obtain rfl | hu := mem_cons.1 hu
        · exact hge
        · exact hge.trans (rel_of_pairwise_cons hts hu)

theorem admitted_le (hb : 0 ≤ b.tokens) (hts : (b.time :: ts).Pairwise (· ≤ ·)) {T} (hT : 0 ≤ T) :
    (admitted (b.answers cap rate ts) a (a + T) : ℚ) ≤ cap + rate * T := by
  have hbound := add_nonneg hcap (mul_nonneg hrate hT)
  induction ts generalizing b with
  | nil => exact hbound
  | cons t ts ih =>
    obtain ⟨hfirst, hts⟩ := pairwise_cons.1 hts
    have ht := hfirst t mem_cons_self
    have hleft := tokens_take_nonneg (level_nonneg hcap hrate hb ht)
    have hts' : ((b.take cap rate t).1.time :: ts).Pairwise (· ≤ ·) := time_take.symm ▸ hts
    rcases lt_or_ge t a with hlt | hge
    · -- The request comes too early to count.
      rw [answers, admitted_cons, if_neg fun h => hlt.not_ge h.2.1, add_zero]
      exact ih hleft hts'
    rcases lt_or_ge t (a + T) with hlt | hge'
    · have hrest := admitted_le_tokens hcap hrate (a := a) hleft (time_take.trans_le hlt.le) hts'
      rw [time_take] at hrest
      have hlevel : b.level cap rate t ≤ cap := level_le
      have hgain : rate * (a + T - t) ≤ rate * T := mul_le_mul_of_nonneg_left (by linarith) hrate
      linarith [admitted_cons_le hrest]
    · rw [admitted_eq_zero fun u hu => ?_]
      · exact hbound
      · obtain rfl | hu := mem_cons.1 hu
        · exact hge'
        · exact hge'.trans (rel_of_pairwise_cons hts hu)

end Bounds

end Bucket

end TokenBucket
