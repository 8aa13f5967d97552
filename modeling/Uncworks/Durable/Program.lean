import Mathlib.Logic.Function.Basic

/-!
# Durable workflow programs

A durable workflow is code that a workflow service runs, replays and answers queries about.  It
schedules commands and waits for their replies, receives signals from buffered channels, starts
timers, and waits in a selector for the first ready case in registration order.

Unbounded loops are `iter` nodes; `Flow` adds the early `return` of imperative code on top of `Prog`.
-/

namespace Durable

structure Interface where
  /-- Commands the workflow schedules. -/
  Command : Type
  /-- The reply to a command that succeeds. -/
  Reply : Command → Type
  /-- Signal channels. -/
  Channel : Type
  /-- Payloads of the signals of a channel. -/
  Message : Channel → Type
  /-- Timers. -/
  Timer : Type
  /-- Trace points, recorded in the history and without effect on the run. -/
  Mark : Type

inductive Failure where
  | canceled
  | other (text : String)
  deriving DecidableEq, Repr

/-- The context a command is scheduled on: an attached one is cancelled with the workflow. -/
inductive Scope where
  | attached
  | detached
  deriving DecidableEq, Repr

inductive Guard (I : Interface) where
  | receive (ch : I.Channel)
  | timer (t : I.Timer)

instance {I : Interface} [DecidableEq I.Channel] [DecidableEq I.Timer] : DecidableEq (Guard I)
  | .receive a, .receive b => decidable_of_iff (a = b) (by simp)
  | .timer a, .timer b => decidable_of_iff (a = b) (by simp)
  | .receive _, .timer _ => isFalse nofun
  | .timer _, .receive _ => isFalse nofun

inductive Picked (I : Interface) where
  | received (ch : I.Channel) (x : I.Message ch)
  | fired (t : I.Timer)

inductive Prog (I : Interface) (σ : Type) : Type → Type 1 where
  | ret {α : Type} (a : α) : Prog I σ α
  | read {α : Type} (k : σ → Prog I σ α) : Prog I σ α
  | update {α : Type} (f : σ → σ) (k : Prog I σ α) : Prog I σ α
  | mark {α : Type} (x : I.Mark) (k : Prog I σ α) : Prog I σ α
  | issue {α : Type} (c : I.Command) (k : Prog I σ α) : Prog I σ α
  | exec {α : Type} (sc : Scope) (c : I.Command)
      (k : Except Failure (I.Reply c) → Prog I σ α) : Prog I σ α
  | poll {α : Type} (ch : I.Channel) (k : Option (I.Message ch) → Prog I σ α) : Prog I σ α
  | start {α : Type} (t : I.Timer) (k : Prog I σ α) : Prog I σ α
  | select {α : Type} (gs : List (Guard I)) (k : Picked I → Prog I σ α) : Prog I σ α
  | iter {α β γ : Type} (body : β → Prog I σ (β ⊕ γ)) (b : β) (k : γ → Prog I σ α) : Prog I σ α

namespace Prog

variable {I : Interface} {σ α β γ : Type}

def bind : {α : Type} → Prog I σ α → (α → Prog I σ β) → Prog I σ β
  | _, .ret a, f => f a
  | _, .read k, f => .read fun s => (k s).bind f
  | _, .update g k, f => .update g (k.bind f)
  | _, .mark x k, f => .mark x (k.bind f)
  | _, .issue c k, f => .issue c (k.bind f)
  | _, .exec sc c k, f => .exec sc c fun r => (k r).bind f
  | _, .poll ch k, f => .poll ch fun x => (k x).bind f
  | _, .start t k, f => .start t (k.bind f)
  | _, .select gs k, f => .select gs fun e => (k e).bind f
  | _, .iter body b k, f => .iter body b fun c => (k c).bind f

def unroll (body : β → Prog I σ (β ⊕ γ)) (b : β) (k : γ → Prog I σ α) : Prog I σ α :=
  (body b).bind fun
    | .inl b' => .iter body b' k
    | .inr c => k c

end Prog

/-- Workflow code with early return: `.error` carries the value of a `return` statement. -/
def Flow (I : Interface) (σ ε α : Type) : Type 1 := Prog I σ (Except ε α)

namespace Flow

variable {I : Interface} {σ ε ε' α β γ : Type}

def prog (p : Flow I σ ε α) : Prog I σ (Except ε α) := p

def bind (p : Flow I σ ε α) (f : α → Flow I σ ε β) : Flow I σ ε β :=
  Prog.bind p fun
    | .ok a => f a
    | .error e => .ret (.error e)

instance : Monad (Flow I σ ε) where
  pure a := .ret (.ok a)
  bind := bind

def exit (e : ε) : Flow I σ ε α := .ret (.error e)

def call (p : Flow I σ ε ε) : Flow I σ ε' ε :=
  Prog.bind p fun
    | .ok a => .ret (.ok a)
    | .error a => .ret (.ok a)

def read : Flow I σ ε σ := Prog.read fun s => .ret (.ok s)

def update (f : σ → σ) : Flow I σ ε Unit := Prog.update f (.ret (.ok ()))

def mark (x : I.Mark) : Flow I σ ε Unit := Prog.mark x (.ret (.ok ()))

def issue (c : I.Command) : Flow I σ ε Unit := Prog.issue c (.ret (.ok ()))

def exec (c : I.Command) : Flow I σ ε (Except Failure (I.Reply c)) :=
  Prog.exec .attached c fun r => .ret (.ok r)

def execDetached (c : I.Command) : Flow I σ ε (Except Failure (I.Reply c)) :=
  Prog.exec .detached c fun r => .ret (.ok r)

def poll (ch : I.Channel) : Flow I σ ε (Option (I.Message ch)) := Prog.poll ch fun x => .ret (.ok x)

def start (t : I.Timer) : Flow I σ ε Unit := Prog.start t (.ret (.ok ()))

def select (gs : List (Guard I)) : Flow I σ ε (Picked I) := Prog.select gs fun e => .ret (.ok e)

def when (c : Prop) [Decidable c] (p : Flow I σ ε Unit) : Flow I σ ε Unit :=
  if c then p else pure ()

/-- How one round of a loop ends: with another round, with the loop's result, or with a return. -/
def rounds (body : β → Flow I σ ε (β ⊕ γ)) (b : β) : Prog I σ (β ⊕ Except ε γ) :=
  Prog.bind (body b) fun
    | .ok (.inl b') => .ret (.inl b')
    | .ok (.inr c) => .ret (.inr (.ok c))
    | .error e => .ret (.inr (.error e))

def loop (body : β → Flow I σ ε (β ⊕ γ)) (b : β) : Flow I σ ε γ := Prog.iter (rounds body) b .ret

end Flow

end Durable
