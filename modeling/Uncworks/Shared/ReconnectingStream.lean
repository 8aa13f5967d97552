import Mathlib.Data.List.Basic
import Uncworks.Machine.Runs

/-!
# Reconnecting streams

`ReconnectingStream` calls `connectFn` again, after a delay, when its promise is rejected.  Whoever
waits for a promise looks at the current `abortController` and not at its own, and `disconnect` has
set that to null: a promise that is settled later is taken for one of a stream that is in use.
-/

namespace Uncworks

open Machine

inductive ConnectionState where
  | connecting
  | connected
  | disconnected
  | failed
  deriving DecidableEq

structure ReconnectingStream where
  attempt : ℕ := 0
  state : ConnectionState := .disconnected
  /-- Whether the signal of the current controller is aborted. -/
  abortController : Option Bool := none
  reconnectTimer : Option ℕ := none
  /-- The timers that are set and have neither fired nor been cleared. -/
  timers : List ℕ := []
  nextTimer : ℕ := 0
  /-- The calls of `connect` that wait for the promise of `connectFn`. -/
  waiting : ℕ := 0
  calls : ℕ := 0

inductive ReconnectEvent
  | connect
  | disconnect
  | messageReceived
  | fire (timer : ℕ)
  | resolve
  | reject

namespace ReconnectingStream

section

variable (s : ReconnectingStream)

def connect : ReconnectingStream :=
  { s with
    state := .connecting
    abortController := some false
    waiting := s.waiting + 1
    calls := s.calls + 1 }

def disconnect : ReconnectingStream :=
  { s with
    timers := match s.reconnectTimer with
      | some timer => s.timers.erase timer
      | none => s.timers
    reconnectTimer := none
    abortController := none
    attempt := 0
    state := .disconnected }

def handleDisconnect (maxRetries : ℕ) : ReconnectingStream :=
  if maxRetries < s.attempt + 1 then { s with attempt := s.attempt + 1, state := .failed }
  else
    { s with
      attempt := s.attempt + 1
      state := .disconnected
      reconnectTimer := some s.nextTimer
      timers := s.nextTimer :: s.timers
      nextTimer := s.nextTimer + 1 }

def step (maxRetries : ℕ) : ReconnectEvent → Option ReconnectingStream
  | .connect => some s.connect
  | .disconnect => some s.disconnect
  | .messageReceived => some { s with attempt := 0 }
  | .fire timer =>
    if timer ∈ s.timers then some (connect { s with timers := s.timers.erase timer }) else none
  | .resolve =>
    if s.waiting ≠ 0 then
      some { s with waiting := s.waiting - 1, state := .connected, attempt := 0 }
    else none
  | .reject =>
    if s.waiting ≠ 0 then
      let s := { s with waiting := s.waiting - 1 }
      some (if s.abortController = some true then s else s.handleDisconnect maxRetries)
    else none

/-- The user does not call `connect`. -/
def unused (_ : ReconnectingStream) : ReconnectEvent → Bool
  | .connect => false
  | _ => true

/-- The connections that are on their way. -/
def load : ℕ := s.timers.length + s.waiting

/-- Without a call of the user `connectFn` is not called, and the stream stays disconnected. -/
def Final (maxRetries : ℕ) : Prop :=
  ∀ t, Reaches (step · maxRetries) unused s t → t.calls = s.calls ∧ t.state = .disconnected

end

variable {maxRetries : ℕ} {s t : ReconnectingStream} {e : ReconnectEvent}

theorem load_step (he : unused s e) (h : s.step maxRetries e = some t) : t.load ≤ s.load := by
  cases e with
  | connect => cases he
  | disconnect =>
    have herase (timer : ℕ) : (s.timers.erase timer).length ≤ s.timers.length :=
      List.erase_sublist.length_le
    cases h
    cases htimer : s.reconnectTimer <;> simp [load, disconnect, htimer, herase]
  | fire timer =>
    obtain ⟨hmem, ⟨⟩⟩ := Option.ite_none_right_eq_some.1 h
    have hlength := List.length_erase_add_one hmem
    simp only [load, connect]
    omega
  | _ => grind [step, load, handleDisconnect]

/-- A controller that is aborted is no longer the current one. -/
def Sound (maxRetries : ℕ) (s : ReconnectingStream) : Prop :=
  s.abortController ≠ some true ∧ (maxRetries = 0 → s.timers = [])

theorem Sound.step (hs : s.Sound maxRetries) (h : s.step maxRetries e = some t) :
    t.Sound maxRetries := by
  obtain ⟨habort, htimers⟩ := hs
  cases e <;> grind [Sound, ReconnectingStream.step, ReconnectingStream.connect,
    ReconnectingStream.disconnect, handleDisconnect]

theorem final_of_load (hload : s.load = 0) (hstate : s.state = .disconnected) :
    s.Final maxRetries := by
  intro t ht
  refine (ht.keeps (I := fun t => t.load = 0 ∧ t.calls = s.calls ∧ t.state = .disconnected)
    ⟨hload, rfl, hstate⟩ fun {s' e t'} hs he hstep => ?_).2
  refine ⟨Nat.le_zero.1 (hs.1 ▸ load_step he hstep), ?_⟩
  obtain ⟨hnil, hwaiting⟩ := Nat.add_eq_zero_iff.1 hs.1
  cases e <;> grind [step, unused, disconnect, List.length_eq_zero_iff]

theorem load_of_final (h : s.Final maxRetries) : s.load = 0 := by
  by_contra hload
  have hone {e t} (he : unused s e) (hstep : s.step maxRetries e = some t) :
      t.calls = s.calls ∧ t.state = .disconnected := h t (.single ⟨e, he, hstep⟩)
  rcases htimers : s.timers with _ | ⟨timer, timers⟩
  · have hwaiting : s.waiting ≠ 0 := fun hzero => hload (by simp [load, htimers, hzero])
    cases (hone (e := .resolve) rfl (if_pos hwaiting)).2
  · have hcalls := (hone (e := .fire timer) rfl (if_pos (by simp [htimers]))).1
    simp [connect] at hcalls

/-- Every waiting call can be rejected, each after a message has reset the attempts. -/
theorem exists_timers (hmax : maxRetries ≠ 0) (hs : s.abortController ≠ some true) :
    ∃ t, Reaches (step · maxRetries) unused s t ∧ t.timers.length = s.load := by
  induction h : s.waiting generalizing s with
  | zero => exact ⟨s, .refl, by simp [load, h]⟩
  | succ n ih =>
    let rejected := handleDisconnect { s with attempt := 0, waiting := n } maxRetries
    have hreject : step { s with attempt := 0 } maxRetries .reject = some rejected := by
      simp [step, rejected, h, hs]
    have hset : rejected.timers = s.nextTimer :: s.timers ∧ rejected.waiting = n ∧
        rejected.abortController = s.abortController := by
      simp only [rejected]
      rw [handleDisconnect, if_neg (by simp; omega)]
      exact ⟨rfl, rfl, rfl⟩
    obtain ⟨t, ht, hlength⟩ := ih (s := rejected) (by rwa [hset.2.2]) hset.2.1
    refine ⟨t, .head ⟨.messageReceived, rfl, rfl⟩ (.head ⟨.reject, rfl, hreject⟩ ht), ?_⟩
    rw [hlength, load, load, hset.1, hset.2.1, h, List.length_cons]
    omega

/-- A `disconnect` is final exactly if it leaves neither a timer nor a promise behind, and at most one
timer is pending exactly if there are no retries or at most one connection is on its way. -/
theorem disconnect_final_iff (hs : Reaches (step · maxRetries) always {} s) :
    (s.disconnect.Final maxRetries ↔ s.disconnect.load = 0) ∧
    ((∀ t, Reaches (step · maxRetries) unused s t → t.timers.length ≤ 1) ↔
      maxRetries = 0 ∨ s.load ≤ 1) := by
  have hsound : s.Sound maxRetries := hs.keeps ⟨nofun, fun _ => rfl⟩ fun h _ hstep => h.step hstep
  refine ⟨⟨load_of_final, fun hload => final_of_load hload rfl⟩, fun h => ?_, fun h t ht => ?_⟩
  · by_contra hneg
    rw [not_or] at hneg
    obtain ⟨t, ht, hlength⟩ := exists_timers hneg.1 hsound.1
    exact hneg.2 (hlength ▸ h t ht)
  · obtain hmax | hload := h
    · have ht : t.Sound maxRetries := ht.keeps hsound fun h _ hstep => h.step hstep
      simp [ht.2 hmax]
    · have hbound : t.load ≤ 1 :=
        ht.keeps (I := fun t => t.load ≤ 1) hload fun h he hstep =>
          Nat.le_trans (load_step he hstep) h
      exact Nat.le_trans (Nat.le_add_right _ _) hbound

theorem disconnect_final_connected :
    ∃ s, Reaches (step · 10) always {} s ∧ s.state = .connected ∧ s.disconnect.Final 10 := by
  have hrun : Reaches (step · 10) always {} _ :=
    reaches_replay [.connect, .resolve] rfl
  exact ⟨_, hrun, rfl, (disconnect_final_iff hrun).1.2 rfl⟩

/-- The promise that `disconnect` aborts is rejected: the stream connects again. -/
theorem reconnects_after_disconnect :
    ∃ s t, Reaches (step · 10) always {} s ∧
      Reaches (step · 10) unused s.disconnect t ∧ s.calls < t.calls :=
  ⟨_, _, reaches_replay [.connect] rfl, reaches_replay [.reject, .fire 0] rfl,
    Nat.lt_add_one _⟩

/-- The user leaves the stream alone, no message comes, and all connections fail. -/
def failing (_ : ReconnectingStream) : ReconnectEvent → Bool
  | .fire _ | .reject => true
  | _ => false

/-- A stream whose connections all fail calls `connectFn` at most once for every timer that is set
already, and once for every attempt that is left. -/
theorem calls_le_of_failing (h : Reaches (step · maxRetries) failing s t) :
    t.calls ≤ s.calls + s.timers.length + (maxRetries - s.attempt) := by
  have hstep {s e t} (he : failing s e) (h : s.step maxRetries e = some t) :
      t.calls + t.timers.length + (maxRetries - t.attempt) ≤
        s.calls + s.timers.length + (maxRetries - s.attempt) := by
    cases e with
    | fire timer =>
      obtain ⟨hmem, ⟨⟩⟩ := Option.ite_none_right_eq_some.1 h
      have hlength := List.length_erase_add_one hmem
      simp only [connect]
      omega
    | reject => grind [step, handleDisconnect]
    | _ => cases he
  have hbound := h.keeps
    (I := fun t => t.calls + t.timers.length + (maxRetries - t.attempt) ≤
      s.calls + s.timers.length + (maxRetries - s.attempt))
    (Nat.le_refl _) fun h he hs => Nat.le_trans (hstep he hs) h
  omega

theorem calls_le_of_failing_thrice :
    ∃ s t, Reaches (step · 2) always {} s ∧ Reaches (step · 2) failing s t ∧
      t.state = .failed ∧ t.calls ≤ 3 := by
  have hrun : Reaches (step · 2) failing (connect {}) _ :=
    reaches_replay [.reject, .fire 0, .reject, .fire 1, .reject] rfl
  exact ⟨_, _, .single ⟨.connect, rfl, rfl⟩, hrun, rfl, calls_le_of_failing hrun⟩

end ReconnectingStream

end Uncworks
