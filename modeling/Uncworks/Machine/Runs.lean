import Mathlib.Logic.Relation

/-!
# Runs of a machine

A machine is a partial step function: the state an event leads to, if the event can happen.  Its
runs take the events that a condition allows.  A property of states holds along every run if each
allowed step keeps it; a given run is checked by replaying its events.
-/

namespace Machine

variable {σ ε : Type*}

/-- The states that are reached from a state by events that are allowed. -/
def Reaches (step : σ → ε → Option σ) (allowed : σ → ε → Bool) : σ → σ → Prop :=
  Relation.ReflTransGen fun s s' => ∃ e, allowed s e ∧ step s e = some s'

def always (_ : σ) (_ : ε) : Bool := true

variable {step : σ → ε → Option σ} {allowed : σ → ε → Bool} {s s' s'' : σ}

theorem Reaches.keeps {I : σ → Prop} (h : Reaches step allowed s s') (hs : I s)
    (hstep : ∀ {s e s'}, I s → allowed s e → step s e = some s' → I s') : I s' := by
  induction h with
  | refl => exact hs
  | tail _ hlast ih =>
    obtain ⟨e, he, hstep'⟩ := hlast
    exact hstep ih he hstep'

def replay (step : σ → ε → Option σ) (allowed : σ → ε → Bool) : List ε → σ → Option σ
  | [], s => some s
  | e :: es, s => if allowed s e then (step s e).bind (replay step allowed es) else none

theorem reaches_replay (es : List ε) (h : replay step allowed es s = some s') :
    Reaches step allowed s s' := by
  induction es generalizing s with
  | nil =>
    cases h
    exact .refl
  | cons e es ih =>
    unfold replay at h
    split at h
    · rename_i he
      obtain ⟨s₁, hs₁, hrest⟩ := Option.bind_eq_some_iff.1 h
      exact .head ⟨e, he, hs₁⟩ (ih hrest)
    · cases h

theorem exists_of_replay (es : List ε) {p} (h : (replay step allowed es s).any p) :
    ∃ s', Reaches step allowed s s' ∧ p s' := by
  obtain ⟨s', hs, hp⟩ := (Option.any_eq_true _ _).1 h
  exact ⟨s', reaches_replay es hs, hp⟩

end Machine
