import Mathlib.Data.Nat.Notation

/-!
# Cron expressions

A parsed cron expression as a set of activation times with the function that finds the next one.
Times are nanoseconds since the zero time, which is no activation; the search for the next activation
gives up after five years and then returns the zero time.
-/

def Cron.second : ℕ := 1000000000

def Cron.fiveYears : ℕ := 5 * 365 * 24 * 3600 * Cron.second

/-- A cron expression: its activations, on whole seconds, and the least one after a time, or the
zero time if there is none within five years. -/
structure Cron where
  Activation : ℕ → Prop
  next : ℕ → ℕ
  whole : ∀ a, Activation a → Cron.second ∣ a
  next_activation : ∀ t, next t ≠ 0 → Activation (next t)
  lt_next : ∀ t, next t ≠ 0 → t < next t
  next_le : ∀ t a, next t ≠ 0 → Activation a → t < a → next t ≤ a
  next_zero : ∀ t a, next t = 0 → Activation a → t < a → t + Cron.fiveYears < a

namespace Cron

/-- A time as it is stored, without fractions of a second. -/
def truncate (t : ℕ) : ℕ := t / second * second

theorem le_truncate {a t} (ha : second ∣ a) (h : a ≤ t) : a ≤ truncate t := by
  obtain ⟨k, rfl⟩ := ha
  rw [Nat.mul_comm]
  apply Nat.mul_le_mul_right
  rw [Nat.le_div_iff_mul_le (by decide), Nat.mul_comm]
  exact h

theorem lt_next_iff (c : Cron) {s t} (h : c.next s ≠ 0) :
    t < c.next s ↔ ∀ a, c.Activation a → s < a → t < a := by
  constructor
  · intro hlt a ha hsa
    have := c.next_le s a h ha hsa
    omega
  · exact fun hall => hall _ (c.next_activation s h) (c.lt_next s h)

def everyMinute : Cron where
  Activation a := 0 < a ∧ 60 * second ∣ a
  next t := (t / (60 * second) + 1) * (60 * second)
  whole a ha := by
    have := ha.2
    unfold second at this ⊢
    omega
  next_activation t _ := by
    unfold second
    omega
  lt_next t _ := by
    unfold second
    omega
  next_le t a _ ha hta := by
    have := ha.2
    unfold second at this ⊢
    omega
  next_zero t a h _ _ := by
    unfold second at h
    omega

def never : Cron where
  Activation _ := False
  next _ := 0
  whole _ ha := ha.elim
  next_activation _ h := (h rfl).elim
  lt_next _ h := (h rfl).elim
  next_le _ _ h := (h rfl).elim
  next_zero _ _ _ ha := ha.elim

end Cron
