import Uncworks.Durable.Frame
import Uncworks.Lifecycle.Walk

/-!
# Footprints of the pipelines

Which commands the code of the pipelines gives, and which of its variables it leaves alone.  A
`Footprint` always allows the commands that neither provision nor retire anything, and neither plan,
verify nor push; of the others, a pipeline needs those it gives.
-/

namespace Uncworks

open Durable Flow

/-- Which commands code may give, and what it keeps of the variables. -/
structure Footprint where
  commands : Command → Prop
  keeps : Vars → Prop
  plain : ∀ c, c.isPlain → commands c
  state : ∀ v state, keeps v → keeps { v with state }
  podIP : ∀ v podIP, keeps v → keeps { v with podIP }

namespace Footprint

def Allows (F : Footprint) : Entry temporal Vars → Prop
  | .scheduled c _ => F.commands c
  | .refused c => F.commands c
  | .completed c _ => F.commands c
  | .issued c => F.commands c
  | _ => True

variable {F : Footprint} {α β : Type} {env : Env} {input : WorkflowInput}

/-- The code stays within the footprint, and its results satisfy `Q`. -/
abbrev Covers (F : Footprint) (p : Workflow α) (Q : α → Prop) : Prop :=
  p.Within F.Allows F.keeps Q fun _ => True

theorem covers_bind {p} {f : β → Workflow α} {Q} (hp : F.Covers p fun b => F.Covers (f b) Q) :
    F.Covers (p >>= f) Q :=
  (within_bind p f).2 hp

theorem covers_pure {a} {Q : α → Prop} (hQ : Q a) : F.Covers (pure a) Q :=
  (within_pure a).2 hQ

theorem covers_execDetached {c} (hc : F.commands c) :
    F.Covers (execDetached (I := temporal) c) fun _ => True :=
  within_execDetached.2 ⟨⟨hc, fun _ _ => hc, fun _ => hc⟩, fun _ => trivial⟩

theorem Covers.bind {p} {f : β → Workflow α} {Q} (hp : F.Covers p fun _ => True)
    (hf : ∀ b, F.Covers (f b) Q) : F.Covers (p >>= f) Q :=
  covers_bind (Within.mono hp (fun b _ => hf b) fun _ h => h)

theorem walk (F : Footprint) : CodeWalk F.commands fun p => F.Covers p fun _ => True where
  plain := F.plain
  pure _ := covers_pure trivial
  exit _ := (within_exit _).2 trivial
  bind hp hf := hp.bind hf
  call hp := within_call.2 hp
  loop _ hbody := within_loop fun b => (hbody b).mono (fun _ _ _ _ => trivial) fun _ h => h
  read := within_read.2 fun _ _ => trivial
  select _ := within_select.2
    ⟨⟨fun _ _ => trivial, fun _ _ _ _ => trivial, fun _ _ => trivial⟩, fun _ => trivial⟩
  poll _ := within_poll.2 ⟨fun _ _ => trivial, fun _ => trivial⟩
  mark _ := (within_mark _).2 ⟨trivial, trivial⟩
  start _ := (within_start _).2 ⟨trivial, trivial⟩
  state _ := (within_update _).2 ⟨fun v hv => F.state v _ hv, trivial⟩
  podIP ip := (within_update _).2 ⟨fun v hv => F.podIP v ip hv, trivial⟩
  execute hc := within_exec.2 ⟨⟨hc, fun _ _ => hc, fun _ => hc⟩, fun _ => trivial⟩

theorem covers_cleanUp (hother : ∀ c : Command, c.isStage = false → F.commands c) (c : Command)
    (hc : c.retires) : F.Covers (cleanUp c) fun _ => True := by
  have hstage : c.isStage = false := by
    cases c with
    | planRun _ | verifyRun _ | pushChanges _ | createPR _ => cases hc
    | _ => rfl
  exact (covers_execDetached (hother c hstage)).bind fun _ => covers_pure trivial

theorem covers_update (hkeeps : ∀ v, F.keeps v) (f : Vars → Vars) :
    F.Covers (update f) fun _ => True :=
  (within_update _).2 ⟨fun _ _ => hkeeps _, trivial⟩

end Footprint

end Uncworks
