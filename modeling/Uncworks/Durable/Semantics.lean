import Mathlib.Data.Nat.Notation
import Mathlib.Logic.Relation
import Uncworks.Durable.Program

/-!
# Running a durable workflow

A configuration is the control state of the workflow's coroutine and the world it runs in.  The
service delivers events only while the coroutine is at rest; then the coroutine runs on until it
rests again.

Every signal carries the length of the history at the moment it was sent (`World.send`).
-/

namespace Durable

variable {I : Interface} {σ α : Type}

/-- What the workflow did, in order.  Entries where it came to rest carry the state a query sees,
and those of received signals and fired timers the cases of the selector. -/
inductive Entry (I : Interface) (σ : Type) where
  | scheduled (c : I.Command) (s : σ)
  | refused (c : I.Command)
  | completed (c : I.Command) (r : Except Failure (I.Reply c))
  | waiting (gs : List (Guard I)) (s : σ)
  | received (gs : List (Guard I)) (ch : I.Channel) (sent : ℕ) (x : I.Message ch)
  | fired (gs : List (Guard I)) (t : I.Timer)
  | started (t : I.Timer)
  | issued (c : I.Command)
  | marked (x : I.Mark)

inductive TimerState where
  | off
  | pending
  | ready
  deriving DecidableEq, Repr

structure World (I : Interface) (σ : Type) where
  /-- The workflow's state, which queries read. -/
  st : σ
  /-- What the workflow did so far. -/
  log : List (Entry I σ)
  /-- All signals sent so far, with the length of the history when they were sent. -/
  inbox : (ch : I.Channel) → List (ℕ × I.Message ch)
  /-- How many signals of a channel were received. -/
  taken : I.Channel → ℕ
  timers : I.Timer → TimerState
  /-- Whether the workflow's context is cancelled. -/
  canceled : Bool

/-- What the service delivers.  `settle` answers whichever command is in flight. -/
inductive Event (I : Interface) where
  | signal (ch : I.Channel) (x : I.Message ch)
  | fire (t : I.Timer)
  | cancel
  | settle (answer : (c : I.Command) → Except Failure (I.Reply c))

inductive Control (I : Interface) (σ α : Type) : Type 1 where
  | running (p : Prog I σ α)
  | awaiting (sc : Scope) (c : I.Command) (k : Except Failure (I.Reply c) → Prog I σ α)
  | blocked (gs : List (Guard I)) (k : Picked I → Prog I σ α)
  | woken (p : Prog I σ α)

structure Config (I : Interface) (σ α : Type) where
  control : Control I σ α
  world : World I σ

namespace World

def initial (s : σ) : World I σ where
  st := s
  log := []
  inbox _ := []
  taken _ := 0
  timers _ := .off
  canceled := false

section

variable (w : World I σ) (e : Entry I σ)

def append : World I σ := { w with log := w.log ++ [e] }

@[simp] theorem append_st : (w.append e).st = w.st := rfl

@[simp] theorem append_log : (w.append e).log = w.log ++ [e] := rfl

def buffer (ch : I.Channel) : List (ℕ × I.Message ch) :=
  (w.inbox ch).drop (w.taken ch)

def cancel : World I σ where
  st := w.st
  log := w.log
  inbox := w.inbox
  taken := w.taken
  timers t := if w.timers t = .pending then .ready else w.timers t
  canceled := true

end

variable [DecidableEq I.Channel] [DecidableEq I.Timer]

def send (w : World I σ) (ch : I.Channel) (x : I.Message ch) : World I σ :=
  { w with inbox := Function.update w.inbox ch (w.inbox ch ++ [(w.log.length, x)]) }

def take (w : World I σ) (gs : List (Guard I)) (ch : I.Channel) (n : ℕ) (x : I.Message ch) :
    World I σ :=
  { w with
    taken := Function.update w.taken ch (w.taken ch + 1)
    log := w.log ++ [.received gs ch n x] }

def setTimer (w : World I σ) (t : I.Timer) (q : TimerState) : World I σ :=
  { w with timers := Function.update w.timers t q }

/-- The first ready case among the remaining ones of a selector with cases `all`, and the world
after it is taken. -/
def pickFrom (w : World I σ) (all : List (Guard I)) : List (Guard I) → Option (Picked I × World I σ)
  | [] => none
  | .receive ch :: gs =>
    match w.buffer ch with
    | (n, x) :: _ => some (.received ch x, w.take all ch n x)
    | [] => pickFrom w all gs
  | .timer t :: gs =>
    if w.timers t = .ready then some (.fired t, w.append (.fired all t)) else pickFrom w all gs

def pick (w : World I σ) (gs : List (Guard I)) : Option (Picked I × World I σ) := w.pickFrom gs gs

def choice (w : World I σ) (gs : List (Guard I)) : Option (Picked I) := (w.pick gs).map Prod.fst

end World

namespace Control

/-- Whether the coroutine is at rest, so that events are delivered and queries answered. -/
def atRest : Control I σ α → Bool
  | .running _ => false
  | _ => true

def result? : Control I σ α → Option α
  | .running (.ret a) => some a
  | _ => none

end Control

variable [DecidableEq I.Channel] [DecidableEq I.Timer]

def Prog.tick (w : World I σ) : Prog I σ α → Option (Config I σ α)
  | .ret _ => none
  | .read k => some ⟨.running (k w.st), w⟩
  | .update f k => some ⟨.running k, { w with st := f w.st }⟩
  | .mark x k => some ⟨.running k, w.append (.marked x)⟩
  | .issue c k =>
    some ⟨.running k, w.append (if w.canceled then .refused c else .issued c)⟩
  | .exec sc c k =>
    if w.canceled = true ∧ sc = .attached then
      some ⟨.running (k (.error .canceled)), w.append (.refused c)⟩
    else some ⟨.awaiting sc c k, w.append (.scheduled c w.st)⟩
  | .poll ch k =>
    match w.buffer ch with
    | (n, x) :: _ => some ⟨.running (k (some x)), w.take [.receive ch] ch n x⟩
    | [] => some ⟨.running (k none), w⟩
  | .start t k =>
    some ⟨.running k,
      (w.setTimer t (if w.canceled then .ready else .pending)).append (.started t)⟩
  | .select gs k =>
    match w.pick gs with
    | some (e, w') => some ⟨.running (k e), w'⟩
    | none => some ⟨.blocked gs k, w.append (.waiting gs w.st)⟩
  | .iter body b k => some ⟨.running (Prog.unroll body b k), w⟩

namespace Config

def initial (p : Prog I σ α) (s : σ) : Config I σ α := ⟨.woken p, .initial s⟩

def resume (c : Config I σ α) : Option (Config I σ α) :=
  match c.control with
  | .running p => p.tick c.world
  | .awaiting _ _ _ => none
  | .blocked gs k => (c.world.pick gs).map fun r => ⟨.running (k r.1), r.2⟩
  | .woken p => some ⟨.running p, c.world⟩

def deliver (c : Config I σ α) : Event I → Option (Config I σ α)
  | .signal ch x =>
    if c.control.atRest then some { c with world := c.world.send ch x } else none
  | .fire t =>
    if c.control.atRest ∧ c.world.timers t = .pending then
      some { c with world := c.world.setTimer t .ready }
    else none
  | .cancel =>
    match c.control with
    | .running _ => none
    | .awaiting .attached cmd k =>
      some ⟨.woken (k (.error .canceled)),
        c.world.cancel.append (.completed cmd (.error .canceled))⟩
    | _ => some { c with world := c.world.cancel }
  | .settle answer =>
    match c.control with
    | .awaiting _ cmd k =>
      some ⟨.woken (k (answer cmd)), c.world.append (.completed cmd (answer cmd))⟩
    | _ => none

inductive Step : Config I σ α → Config I σ α → Prop
  | resume {c c'} (h : c.resume = some c') : Step c c'
  | deliver {c c'} (e : Event I) (h : c.deliver e = some c') : Step c c'

def Reaches : Config I σ α → Config I σ α → Prop := Relation.ReflTransGen Step

/-- Let the coroutine go on until it waits or has returned, for at most `fuel` steps. -/
def settleDown : ℕ → Config I σ α → Config I σ α
  | 0, c => c
  | fuel + 1, c =>
    match c.resume with
    | some c' => c'.settleDown fuel
    | none => c

def play (fuel : ℕ) (c : Config I σ α) : List (Event I) → Option (Config I σ α)
  | [] => some (c.settleDown fuel)
  | e :: es => ((c.settleDown fuel).deliver e).bind fun c' => c'.play fuel es

theorem reaches_settleDown (fuel : ℕ) (c : Config I σ α) : c.Reaches (c.settleDown fuel) := by
  induction fuel generalizing c with
  | zero => exact .refl
  | succ fuel ih =>
    simp only [settleDown]
    split
    · rename_i c' h
      exact .head (.resume h) (ih c')
    · exact .refl

theorem reaches_of_play {fuel} {c c' : Config I σ α} {es} (h : c.play fuel es = some c') :
    c.Reaches c' := by
  induction es generalizing c with
  | nil => cases h; exact reaches_settleDown fuel c
  | cons e es ih =>
    simp only [play, Option.bind_eq_some_iff] at h
    obtain ⟨c₁, hd, hp⟩ := h
    exact (reaches_settleDown fuel c).trans (.head (.deliver e hd) (ih hp))

section

variable (fuel : ℕ) (c : Config I σ α) (es : List (Event I))

def after : Config I σ α :=
  (c.play fuel es).getD c

theorem reaches_after : c.Reaches (c.after fuel es) := by
  unfold after
  rcases h : c.play fuel es with _ | c'
  · exact .refl
  · exact reaches_of_play h

end

end Config

end Durable
