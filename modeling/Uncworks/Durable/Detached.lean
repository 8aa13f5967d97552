import Uncworks.Durable.Logic

/-!
# Commands on a disconnected context

Once the context of a workflow is cancelled, every command given on it is refused; only those on a
disconnected context are still scheduled.  `Prog.Detaches D` says that all commands the code gives
on a disconnected context satisfy `D`, and then no other command is scheduled after a refusal
(`Config.Reaches.detached_of_refused`).
-/

namespace Durable

open List

variable {I : Interface} {σ : Type}

/-- The commands that the code gives on a disconnected context satisfy `D`. -/
def Prog.Detaches (D : I.Command → Prop) : {α : Type} → Prog I σ α → Prop
  | _, .ret _ => True
  | _, .read k => ∀ s, (k s).Detaches D
  | _, .update _ k => k.Detaches D
  | _, .mark _ k => k.Detaches D
  | _, .issue _ k => k.Detaches D
  | _, .exec sc c k => (sc = .detached → D c) ∧ ∀ r, (k r).Detaches D
  | _, .poll _ k => ∀ x, (k x).Detaches D
  | _, .start _ k => k.Detaches D
  | _, .select _ k => ∀ e, (k e).Detaches D
  | _, .iter body _ k => (∀ b, (body b).Detaches D) ∧ ∀ c, (k c).Detaches D

namespace Prog

variable {α β γ : Type} {D : I.Command → Prop}

theorem Detaches.bind {p : Prog I σ α} {f : α → Prog I σ β} (hp : p.Detaches D)
    (hf : ∀ a, (f a).Detaches D) : (p.bind f).Detaches D := by
  induction p with
  | ret a => exact hf a
  | read k ih => exact fun s => ih s (hp s) hf
  | update g k ih | mark x k ih | issue c k ih | start t k ih => exact ih hp hf
  | exec sc c k ih => exact ⟨hp.1, fun r => ih r (hp.2 r) hf⟩
  | poll ch k ih => exact fun x => ih x (hp x) hf
  | select gs k ih => exact fun e => ih e (hp e) hf
  | iter body b k ihb ihk => exact ⟨hp.1, fun c => ihk c (hp.2 c) hf⟩

theorem Detaches.unroll {body} {b : β} {k : γ → Prog I σ α} (h : (Prog.iter body b k).Detaches D) :
    (Prog.unroll body b k).Detaches D := by
  refine (h.1 b).bind ?_
  rintro (b' | c)
  · exact h
  · exact h.2 c

end Prog

/-! ## Runs -/

/-- What may follow a refusal: only commands that satisfy `D` are scheduled. -/
def Entry.Permits (D : I.Command → Prop) : Entry I σ → Entry I σ → Prop
  | .refused _, .scheduled c _ => D c
  | _, _ => True

/-- A command is refused only by a cancelled context, and the history keeps to what may follow. -/
structure World.Detached (D : I.Command → Prop) (w : World I σ) : Prop where
  canceled : ∀ c, .refused c ∈ w.log → w.canceled
  log : w.log.Pairwise (Entry.Permits D)

def Control.Detaches (D : I.Command → Prop) {α : Type} : Control I σ α → Prop
  | .running p => p.Detaches D
  | .awaiting _ _ k => ∀ r, (k r).Detaches D
  | .blocked _ k => ∀ e, (k e).Detaches D
  | .woken p => p.Detaches D

structure Config.Detached (D : I.Command → Prop) {α : Type} (c : Config I σ α) : Prop where
  control : c.control.Detaches D
  world : c.world.Detached D

section Runs

variable {α : Type} {D : I.Command → Prop} {w w' : World I σ}

theorem World.Detached.grow (h : w.Detached D) {e} (hlog : w'.log = w.log ++ [e])
    (hc : w.canceled → w'.canceled) (hr : ∀ c, e = .refused c → w'.canceled)
    (hs : ∀ c s, e = .scheduled c s → w.canceled → D c) : w'.Detached D := by
  constructor
  · intro c hmem
    rw [hlog, mem_append, mem_singleton] at hmem
    rcases hmem with hmem | rfl
    · exact hc (h.canceled c hmem)
    · exact hr c rfl
  · rw [hlog, pairwise_append]
    refine ⟨h.log, pairwise_singleton _ _, fun a ha b hb => ?_⟩
    rw [mem_singleton] at hb
    subst hb
    unfold Entry.Permits
    split
    · rename_i c' c s
      exact hs c s rfl (h.canceled c' ha)
    · trivial

theorem World.Detached.note (h : w.Detached D) {e} (hlog : w'.log = w.log ++ [e])
    (hc : w.canceled → w'.canceled) (hr : ∀ c, e ≠ .refused c) (hs : ∀ c s, e ≠ .scheduled c s) :
    w'.Detached D :=
  h.grow hlog hc (fun c he => absurd he (hr c)) fun c s he => absurd he (hs c s)

theorem World.Detached.cancel (h : w.Detached D) : w.cancel.Detached D := ⟨fun _ _ => rfl, h.log⟩

variable [DecidableEq I.Channel] [DecidableEq I.Timer] {c : Config I σ α} {p : Prog I σ α}

omit [DecidableEq I.Timer] in
theorem World.Detached.pick (h : w.Detached D) {gs e} (he : w.pick gs = some (e, w')) :
    w'.Detached D := by
  rcases World.pickFrom_cases he with ⟨ch, n, x, -, -, rfl, -⟩ | ⟨t, -, -, rfl, -⟩
  all_goals exact h.note rfl id nofun nofun

theorem Prog.Detaches.tick (hp : p.Detaches D)
    (hw : w.Detached D) (h : p.tick w = some c) : c.Detached D := by
  cases p with
  | ret a => cases h
  | read k => cases h; exact ⟨hp _, hw⟩
  | update f k => cases h; exact ⟨hp, hw.canceled, hw.log⟩
  | mark x k | start t k => cases h; exact ⟨hp, hw.note rfl id (by simp) (by simp)⟩
  | issue cmd k =>
    cases h
    refine ⟨hp, ?_⟩
    by_cases hc : w.canceled
    · rw [if_pos hc]
      exact hw.grow rfl id (fun _ _ => hc) (by simp)
    · rw [if_neg hc]
      exact hw.note rfl id (by simp) (by simp)
  | exec sc cmd k =>
    simp only [Prog.tick] at h
    split_ifs at h with hc
    · cases h
      exact ⟨hp.2 _, hw.grow rfl id (fun _ _ => hc.1) (by simp)⟩
    · cases h
      refine ⟨hp.2, hw.grow rfl id (by simp) fun c s he hcan => ?_⟩
      cases he
      refine hp.1 ?_
      cases sc with
      | attached => exact absurd ⟨hcan, rfl⟩ hc
      | detached => rfl
  | poll ch k =>
    simp only [Prog.tick] at h
    split at h
    · cases h; exact ⟨hp _, hw.note rfl id (by simp) (by simp)⟩
    · cases h; exact ⟨hp _, hw⟩
  | select gs k =>
    simp only [Prog.tick] at h
    split at h
    · rename_i e w' he
      cases h
      exact ⟨hp e, hw.pick he⟩
    · cases h; exact ⟨hp, hw.note rfl id (by simp) (by simp)⟩
  | iter body b k => cases h; exact ⟨Prog.Detaches.unroll hp, hw⟩

theorem Config.Detached.step {c'} (hc : c.Detached D) (h : c.Step c') : c'.Detached D := by
  obtain ⟨control, w⟩ := c
  obtain ⟨hp, hw⟩ := hc
  cases h with
  | resume h =>
    cases control with
    | running p => exact Prog.Detaches.tick hp hw h
    | awaiting sc cmd k => cases h
    | blocked gs k =>
      simp only [Config.resume, Option.map_eq_some_iff] at h
      obtain ⟨⟨e, w'⟩, he, rfl⟩ := h
      exact ⟨hp e, hw.pick he⟩
    | woken p => cases h; exact ⟨hp, hw⟩
  | deliver e h =>
    cases e with
    | signal ch x | fire t =>
      simp only [Config.deliver] at h
      split_ifs at h
      cases h
      exact ⟨hp, hw.canceled, hw.log⟩
    | cancel =>
      cases control with
      | running p => cases h
      | awaiting sc cmd k =>
        cases sc with
        | attached => cases h; exact ⟨hp _, hw.cancel.note rfl id (by simp) (by simp)⟩
        | detached => cases h; exact ⟨hp, hw.cancel⟩
      | blocked gs k | woken p => cases h; exact ⟨hp, hw.cancel⟩
    | settle answer =>
      cases control with
      | awaiting sc cmd k => cases h; exact ⟨hp _, hw.note rfl id (by simp) (by simp)⟩
      | running p | blocked gs k | woken p => cases h

theorem Config.Reaches.detached {s} (h : (Config.initial p s).Reaches c) (hp : p.Detaches D) :
    c.Detached D := by
  induction h with
  | refl => exact ⟨hp, nofun, .nil⟩
  | tail _ hs ih => exact ih.step hs

/-- Only commands that the code gives on a disconnected context are scheduled after a refusal. -/
theorem Config.Reaches.detached_of_refused {s} (h : (Config.initial p s).Reaches c)
    (hp : p.Detaches D) {pre post cmd cmd' v} (hlog : c.world.log = pre ++ .scheduled cmd v :: post)
    (hr : .refused cmd' ∈ pre) : D cmd := by
  have hpair := (h.detached hp).world.log
  rw [hlog, pairwise_append] at hpair
  exact hpair.2.2 _ hr _ mem_cons_self

end Runs

/-! ## Rules for code with early return -/

namespace Flow

variable {ε ε' α β γ : Type} {D : I.Command → Prop}

def Detaches (D : I.Command → Prop) (p : Flow I σ ε α) : Prop := Prog.Detaches D p

theorem Detaches.prog {p : Flow I σ ε α} (h : p.Detaches D) : p.prog.Detaches D := h

theorem detaches_pure (a : α) : (pure a : Flow I σ ε α).Detaches D := trivial

theorem detaches_exit (e : ε) : (exit e : Flow I σ ε α).Detaches D := trivial

theorem detaches_read : (read : Flow I σ ε σ).Detaches D := fun _ => trivial

theorem detaches_update (f : σ → σ) : (update f : Flow I σ ε Unit).Detaches D := trivial

theorem detaches_mark (x : I.Mark) : (mark x : Flow I σ ε Unit).Detaches D := trivial

theorem detaches_exec (c : I.Command) : (exec c : Flow I σ ε _).Detaches D :=
  ⟨nofun, fun _ => trivial⟩

theorem detaches_execDetached {c} (hc : D c) :
    (execDetached c : Flow I σ ε _).Detaches D := ⟨fun _ => hc, fun _ => trivial⟩

theorem detaches_poll (ch : I.Channel) : (poll ch : Flow I σ ε _).Detaches D := fun _ => trivial

theorem detaches_start (t : I.Timer) : (start t : Flow I σ ε Unit).Detaches D := trivial

theorem detaches_select (gs : List (Guard I)) : (select gs : Flow I σ ε _).Detaches D :=
  fun _ => trivial

theorem Detaches.bind {p} {f : α → Flow I σ ε β} (hp : p.Detaches D) (hf : ∀ a, (f a).Detaches D) :
    (p >>= f).Detaches D := by
  refine Prog.Detaches.bind hp ?_
  rintro (e | a)
  · trivial
  · exact hf a

theorem Detaches.call {p} (hp : p.Detaches D) : (call p : Flow I σ ε' ε).Detaches D := by
  refine Prog.Detaches.bind hp ?_
  rintro (e | a) <;> trivial

theorem detaches_loop {body : β → Flow I σ ε (β ⊕ γ)} (h : ∀ b, (body b).Detaches D) (b : β) :
    (loop body b).Detaches D := by
  refine ⟨fun b => Prog.Detaches.bind (h b) ?_, fun _ => trivial⟩
  rintro (e | b' | c) <;> trivial

-- The rules are all a proof needs.
attribute [irreducible] Detaches

end Flow

end Durable
