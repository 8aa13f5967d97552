import Uncworks.Buckets.TokenBucket
import Mathlib.Algebra.Order.Field.Basic

/-!
# Buckets that may be forgotten

A store that has a bucket for a client may forget it, and it makes a new one, which is full, when the
client comes back.  Nobody notices as long as it only forgets buckets that are full: the requests are
answered as by a bucket that is kept for ever (`Follows`), so they are limited as well.
-/

namespace TokenBucket.Bucket

open List

def admittedWithin (answers : List (ℚ × Bool)) (a e : ℚ) : ℕ :=
  answers.countP fun p => p.2 && a ≤ p.1 && p.1 ≤ e

theorem admittedWithin_le_admitted (answers : List (ℚ × Bool)) {a e e'} (h : e < e') :
    admittedWithin answers a e ≤ admitted answers a e' := by
  refine countP_mono_left fun p _ hp => ?_
  simp only [Bool.and_eq_true, decide_eq_true_eq] at hp ⊢
  exact ⟨hp.1, hp.2.trans_lt h⟩

def current (cap : ℚ) (stored : Option Bucket) (t : ℚ) : Bucket := stored.getD ⟨cap, t⟩

/-- The answers of a store so far are those of a bucket that is full at the start and never
forgotten, and so will the following ones be. -/
structure Follows (cap rate start clock : ℚ) (stored : Option Bucket) (log : List (ℚ × Bool)) :
    Prop where
  answers : log = Bucket.answers cap rate ⟨cap, start⟩ (log.map Prod.fst)
  sorted : (start :: log.map Prod.fst).Pairwise (· ≤ ·)
  past : ∀ t ∈ start :: log.map Prod.fst, t ≤ clock
  nonneg : ∀ b ∈ stored, 0 ≤ b.tokens
  used : ∀ b ∈ stored, b.time ≤ clock
  level : ∀ t, clock ≤ t → (current cap stored t).level cap rate t =
    (after cap rate ⟨cap, start⟩ (log.map Prod.fst)).level cap rate t

variable {cap rate start clock now : ℚ} {stored : Option Bucket} {log : List (ℚ × Bool)}

theorem level_self (b : Bucket) (h : b.tokens ≤ cap) : b.level cap rate b.time = b.tokens := by
  rw [level, sub_self, mul_zero, add_zero, min_eq_right h]

theorem level_new (hrate : 0 ≤ rate) (h : clock ≤ now) : level cap rate ⟨cap, clock⟩ now = cap :=
  level_eq_cap (le_add_of_nonneg_right (mul_nonneg hrate (sub_nonneg.2 h)))

namespace Follows

theorem init (hrate : 0 ≤ rate) : Follows cap rate start start none [] where
  answers := rfl
  sorted := pairwise_singleton _ _
  past := by simp
  nonneg := nofun
  used := nofun
  level t ht := (level_new hrate le_rfl).trans (level_new hrate ht).symm

theorem tick (h : Follows cap rate start clock stored log) (hnow : clock ≤ now) :
    Follows cap rate start now stored log where
  answers := h.answers
  sorted := h.sorted
  past t ht := (h.past t ht).trans hnow
  nonneg := h.nonneg
  used b hb := (h.used b hb).trans hnow
  level t ht := h.level t (hnow.trans ht)

theorem take (hcap : 0 ≤ cap) (hrate : 0 ≤ rate) (h : Follows cap rate start clock stored log)
    (hnow : clock ≤ now) {b : Bucket}
    (hb : b.level cap rate now = (current cap stored now).level cap rate now) :
    Follows cap rate start now (some (b.take cap rate now).1)
      (log ++ [(now, (b.take cap rate now).2)]) := by
  have htake := take_congr (hb.trans (h.level now hnow))
  have hpast : ∀ t ∈ start :: log.map Prod.fst, t ≤ now := fun t ht => (h.past t ht).trans hnow
  have hlevel : 0 ≤ b.level cap rate now := by
    rw [hb]
    cases stored with
    | none => exact hcap.trans (level_new hrate le_rfl).ge
    | some b' => exact level_nonneg hcap hrate (h.nonneg b' rfl) ((h.used b' rfl).trans hnow)
  have htimes : (log ++ [(now, (b.take cap rate now).2)]).map Prod.fst = log.map Prod.fst ++ [now] := by
    simp
  refine ⟨?_, ?_, ?_, ?_, ?_, ?_⟩
  · rw [htimes, answers_append, ← h.answers, htake]
  · rw [htimes, ← cons_append, pairwise_append]
    exact ⟨h.sorted, pairwise_singleton _ _, by simpa using hpast⟩
  · rw [htimes]
    exact fun t ht => (mem_append.1 ht).elim (hpast t) fun ht => (mem_singleton.1 ht).le
  · rintro _ ⟨⟩
    exact tokens_take_nonneg hlevel
  · rintro _ ⟨⟩
    exact time_take.le
  · intro t _
    rw [htimes, after_append, ← htake]
    rfl

/-- A bucket may be forgotten after it has been left alone for as long as it takes to fill it. -/
theorem forget (hrate : 0 ≤ rate) (h : Follows cap rate start clock stored log)
    (hidle : ∀ b ∈ stored, cap ≤ rate * (clock - b.time)) :
    Follows cap rate start clock none log where
  answers := h.answers
  sorted := h.sorted
  past := h.past
  nonneg := nofun
  used := nofun
  level t ht := by
    rw [← h.level t ht]
    refine (level_new hrate le_rfl).trans ?_
    cases stored with
    | none => exact (level_new hrate le_rfl).symm
    | some b =>
      have hgain : rate * (clock - b.time) ≤ rate * (t - b.time) :=
        mul_le_mul_of_nonneg_left (sub_le_sub_right ht _) hrate
      refine (level_eq_cap ?_).symm
      show cap ≤ b.tokens + rate * (t - b.time)
      linarith [h.nonneg b rfl, hidle b rfl]

theorem admittedWithin_le (hcap : 0 ≤ cap) (hrate : 0 ≤ rate)
    (h : Follows cap rate start clock stored log) (a : ℚ) {T} (hT : 0 ≤ T) :
    (admittedWithin log a (a + T) : ℚ) ≤ cap + rate * T := by
  -- The interval is closed, so it is the limit of the half-open ones that contain it.
  refine le_of_forall_pos_le_add fun ε hε => ?_
  have hslack : 0 < ε / (rate + 1) := div_pos hε (by linarith)
  have hwider : a + T < a + (T + ε / (rate + 1)) := by linarith
  have hbound : (admitted log a (a + (T + ε / (rate + 1))) : ℚ) ≤
      cap + rate * (T + ε / (rate + 1)) := by
    rw [h.answers]
    exact admitted_le hcap hrate hcap h.sorted (by linarith)
  have hsmall : rate * (ε / (rate + 1)) ≤ ε := by
    rw [mul_div_assoc', div_le_iff₀ (by linarith)]
    linarith [mul_comm rate ε]
  have hle : (admittedWithin log a (a + T) : ℚ) ≤ admitted log a (a + (T + ε / (rate + 1))) :=
    Nat.cast_le.2 (admittedWithin_le_admitted log hwider)
  linarith

end Follows

end TokenBucket.Bucket
