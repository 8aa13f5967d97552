import Mathlib.Data.List.Induction
import Uncworks.Durable.Semantics

/-!
# A program logic for durable workflows

A `Monitor` folds the history of a workflow into a state of its own and says what must hold whenever
the workflow is at rest.  `Prog.wp O p Q` is the weakest precondition of the code `p` for the
postcondition `Q`.  Replies, signals and timers are arbitrary, loops take an invariant.
`Prog.wp_sound` connects the logic to the semantics.
-/

namespace Durable

/-- A fold over the history of a workflow, with a condition it must always meet and one it must meet
at rest. -/
structure Monitor (I : Interface) (σ : Type) where
  /-- What the monitor remembers. -/
  State : Type
  /-- What it remembers before the first entry. -/
  init : State
  /-- How it takes an entry in. -/
  step : State → Entry I σ → State
  /-- What must hold after every entry. -/
  safe : State → Prop
  /-- What must hold when the workflow is at rest. -/
  rest : σ → State → Prop
  safe_of_rest : ∀ s m, rest s m → safe m

namespace Monitor

variable {I : Interface} {σ : Type}

section

variable (O : Monitor I σ) (log : List (Entry I σ))

def observe : O.State := log.foldl O.step O.init

@[simp] theorem observe_nil : O.observe [] = O.init := rfl

@[simp] theorem observe_append (e : Entry I σ) :
    O.observe (log ++ [e]) = O.step (O.observe log) e := by
  simp [observe]

end

theorem observe_of_longer {O : Monitor I σ} {S : O.State → Prop}
    (hS : ∀ m, S m → ∀ e, S (O.step m e)) {log log'} (hlog : log <+: log') (h : S (O.observe log)) :
    S (O.observe log') := by
  obtain ⟨post, rfl⟩ := hlog
  induction post using List.reverseRecOn with
  | nil => simpa using h
  | append_singleton post e ih =>
    rw [← List.append_assoc, observe_append]
    exact hS _ ih e

theorem exists_entering {O : Monitor I σ} {S : O.State → Prop} {old log} (h₀ : ¬ S (O.observe old))
    (h : S (O.observe (old ++ log))) :
    ∃ pre e post, log = pre ++ e :: post ∧ ¬ S (O.observe (old ++ pre)) ∧
      S (O.step (O.observe (old ++ pre)) e) := by
  induction log using List.reverseRecOn with
  | nil => exact absurd (by simpa using h) h₀
  | append_singleton log e ih =>
    by_cases hlog : S (O.observe (old ++ log))
    · obtain ⟨pre, e', post, rfl, hpre, hstep⟩ := ih hlog
      exact ⟨pre, e', post ++ [e], by simp, hpre, hstep⟩
    · refine ⟨log, e, [], rfl, hlog, ?_⟩
      rwa [← List.append_assoc, observe_append] at h

end Monitor

namespace Prog

variable {I : Interface} {σ α β γ : Type} (O : Monitor I σ)

def wp : {α : Type} → Prog I σ α → (α → σ → O.State → Prop) → σ → O.State → Prop
  | _, .ret a, Q, s, m => Q a s m
  | _, .read k, Q, s, m => wp (k s) Q s m
  | _, .update f k, Q, s, m => wp k Q (f s) m
  | _, .mark x k, Q, s, m => O.safe (O.step m (.marked x)) ∧ wp k Q s (O.step m (.marked x))
  | _, .issue c k, Q, s, m =>
    (O.safe (O.step m (.issued c)) ∧ wp k Q s (O.step m (.issued c))) ∧
    O.safe (O.step m (.refused c)) ∧ wp k Q s (O.step m (.refused c))
  | _, .exec sc c k, Q, s, m =>
    (sc = .attached → O.safe (O.step m (.refused c)) ∧
      wp (k (.error .canceled)) Q s (O.step m (.refused c))) ∧
    O.rest s (O.step m (.scheduled c s)) ∧
    ∀ r, O.rest s (O.step (O.step m (.scheduled c s)) (.completed c r)) ∧
      wp (k r) Q s (O.step (O.step m (.scheduled c s)) (.completed c r))
  | _, .poll ch k, Q, s, m =>
    wp (k none) Q s m ∧ ∀ n x, O.safe (O.step m (.received [.receive ch] ch n x)) ∧
      wp (k (some x)) Q s (O.step m (.received [.receive ch] ch n x))
  | _, .start t k, Q, s, m => O.safe (O.step m (.started t)) ∧ wp k Q s (O.step m (.started t))
  | _, .select gs k, Q, s, m =>
    O.rest s (O.step m (.waiting gs s)) ∧
    ∀ m', m' = m ∨ m' = O.step m (.waiting gs s) →
      (∀ ch, .receive ch ∈ gs → ∀ n x, O.safe (O.step m' (.received gs ch n x)) ∧
        wp (k (.received ch x)) Q s (O.step m' (.received gs ch n x))) ∧
      ∀ t, .timer t ∈ gs →
        O.safe (O.step m' (.fired gs t)) ∧ wp (k (.fired t)) Q s (O.step m' (.fired gs t))
  | _, .iter (β := β) body b k, Q, s, m =>
    ∃ Inv : β → σ → O.State → Prop, Inv b s m ∧ ∀ b s m, Inv b s m →
      wp (body b) (fun r s m => match r with
        | .inl b' => Inv b' s m
        | .inr c => wp (k c) Q s m) s m

variable {O}

theorem wp_mono {p : Prog I σ α} {Q Q'}
    (hQ : ∀ a s m, Q a s m → Q' a s m) {s m} (h : p.wp O Q s m) :
    p.wp O Q' s m := by
  induction p generalizing s m with
  | ret a => exact hQ _ _ _ h
  | read k ih => exact ih _ hQ h
  | update f k ih => exact ih hQ h
  | mark x k ih | start t k ih => exact h.imp_right (ih hQ)
  | issue c k ih => exact h.imp (.imp_right (ih hQ)) (.imp_right (ih hQ))
  | exec sc c k ih =>
    exact ⟨fun hs => (h.1 hs).imp_right (ih _ hQ), h.2.1, fun r => (h.2.2 r).imp_right (ih _ hQ)⟩
  | poll ch k ih => exact ⟨ih _ hQ h.1, fun n x => (h.2 n x).imp_right (ih _ hQ)⟩
  | select gs k ih =>
    refine ⟨h.1, fun m' hm => ⟨fun ch hc n x => ?_, fun t ht => ?_⟩⟩
    · exact ((h.2 m' hm).1 ch hc n x).imp_right (ih _ hQ)
    · exact ((h.2 m' hm).2 t ht).imp_right (ih _ hQ)
  | iter body b k ihb ihk =>
    obtain ⟨Inv, hb, hstep⟩ := h
    refine ⟨Inv, hb, fun b s m hi => ihb b ?_ (hstep b s m hi)⟩
    rintro (b' | c) s m hr
    · exact hr
    · exact ihk c hQ hr

theorem wp_bind (p : Prog I σ α) (f : α → Prog I σ β) (Q : β → σ → O.State → Prop) (s : σ)
    (m : O.State) : (p.bind f).wp O Q s m ↔ p.wp O (fun a => (f a).wp O Q) s m := by
  induction p generalizing s m with
  | ret a => exact Iff.rfl
  | read k ih => exact ih _ _ _ _
  | update g k ih => exact ih _ _ _
  | mark x k ih | issue c k ih | exec sc c k ih | poll ch k ih | start t k ih | select gs k ih =>
    simp [bind, wp, ih]
  | iter body b k ihb ihk => simp [bind, wp, ihk]

theorem wp_unroll {body} {b : β} {k : γ → Prog I σ α}
    {Q s m} (h : (Prog.iter body b k).wp O Q s m) :
    (unroll body b k).wp O Q s m := by
  obtain ⟨Inv, hb, hstep⟩ := h
  rw [unroll, wp_bind]
  refine wp_mono ?_ (hstep b s m hb)
  rintro (b' | c) s m hr
  · exact ⟨Inv, hr, hstep⟩
  · exact hr

end Prog

/-! ## Soundness -/

section Soundness

variable {I : Interface} {σ α : Type} {O : Monitor I σ}

def Config.Ok (O : Monitor I σ) (Q : α → σ → O.State → Prop) (c : Config I σ α) : Prop :=
  let s := c.world.st
  let m := O.observe c.world.log
  O.safe m ∧ match c.control with
  | .running p => p.wp O Q s m
  | .awaiting _ cmd k => O.rest s m ∧
    ∀ r, O.rest s (O.step m (.completed cmd r)) ∧ (k r).wp O Q s (O.step m (.completed cmd r))
  | .blocked gs k => O.rest s m ∧
    (∀ ch, .receive ch ∈ gs → ∀ n x, O.safe (O.step m (.received gs ch n x)) ∧
      (k (.received ch x)).wp O Q s (O.step m (.received gs ch n x))) ∧
    ∀ t, .timer t ∈ gs →
      O.safe (O.step m (.fired gs t)) ∧ (k (.fired t)).wp O Q s (O.step m (.fired gs t))
  | .woken p => O.rest s m ∧ p.wp O Q s m

variable [DecidableEq I.Channel] [DecidableEq I.Timer] {Q : α → σ → O.State → Prop}
  {c : Config I σ α}

omit [DecidableEq I.Timer] in
theorem World.pickFrom_cases {w w' : World I σ} {all gs e} (h : w.pickFrom all gs = some (e, w')) :
    (∃ ch n x, .receive ch ∈ gs ∧ e = .received ch x ∧ w' = w.take all ch n x ∧
      (w.buffer ch).head? = some (n, x)) ∨
    ∃ t, .timer t ∈ gs ∧ e = .fired t ∧ w' = w.append (.fired all t) ∧ w.timers t = .ready := by
  induction gs with
  | nil => cases h
  | cons g gs ih =>
    cases g with
    | receive ch =>
      simp only [World.pickFrom] at h
      split at h
      · rename_i n x rest hb
        simp only [Option.some.injEq, Prod.mk.injEq] at h
        exact .inl ⟨ch, n, x, by simp, h.1.symm, h.2.symm, by simp [hb]⟩
      · rcases ih h with ⟨ch, n, x, hm, hr⟩ | ⟨t, hm, hr⟩
        · exact .inl ⟨ch, n, x, by simp [hm], hr⟩
        · exact .inr ⟨t, by simp [hm], hr⟩
    | timer t =>
      simp only [World.pickFrom] at h
      split_ifs at h with ht
      · simp only [Option.some.injEq, Prod.mk.injEq] at h
        exact .inr ⟨t, by simp, h.1.symm, h.2.symm, ht⟩
      · rcases ih h with ⟨ch, n, x, hm, hr⟩ | ⟨t, hm, hr⟩
        · exact .inl ⟨ch, n, x, by simp [hm], hr⟩
        · exact .inr ⟨t, by simp [hm], hr⟩

omit [DecidableEq I.Timer] in
theorem Config.ok_of_pick {w w' : World I σ} {gs} {k : Picked I → Prog I σ α}
    {e} (h : w.pick gs = some (e, w'))
    (hr : ∀ ch, .receive ch ∈ gs → ∀ n x,
      O.safe (O.step (O.observe w.log) (.received gs ch n x)) ∧
      (k (.received ch x)).wp O Q w.st (O.step (O.observe w.log) (.received gs ch n x)))
    (ht : ∀ t, .timer t ∈ gs → O.safe (O.step (O.observe w.log) (.fired gs t)) ∧
      (k (.fired t)).wp O Q w.st (O.step (O.observe w.log) (.fired gs t))) :
    Config.Ok O Q ⟨.running (k e), w'⟩ := by
  rcases World.pickFrom_cases h with ⟨ch, n, x, hm, rfl, rfl, -⟩ | ⟨t, hm, rfl, rfl, -⟩
  · simpa [Config.Ok, World.take] using hr ch hm n x
  · simpa [Config.Ok] using ht t hm

theorem Config.ok_tick {p : Prog I σ α} {w} (h : p.tick w = some c) (hm : O.safe (O.observe w.log))
    (hp : p.wp O Q w.st (O.observe w.log)) : c.Ok O Q := by
  cases p with
  | ret a => cases h
  | read k | update f k => cases h; exact ⟨hm, hp⟩
  | mark x k => cases h; simpa [Config.Ok, Prog.wp] using hp
  | issue cmd k =>
    cases h
    rcases hc : w.canceled with _ | _
    · simpa [Config.Ok] using hp.1
    · simpa [Config.Ok] using hp.2
  | exec sc cmd k =>
    simp only [Prog.tick] at h
    split_ifs at h with hc
    · cases h; simpa [Config.Ok] using hp.1 hc.2
    · cases h
      simpa [Config.Ok] using ⟨O.safe_of_rest _ _ hp.2.1, hp.2⟩
  | poll ch k =>
    simp only [Prog.tick] at h
    split at h
    · cases h; simpa [Config.Ok, World.take] using hp.2 _ _
    · cases h; exact ⟨hm, hp.1⟩
  | start t k => cases h; simpa [Config.Ok, World.setTimer, Prog.wp] using hp
  | select gs k =>
    simp only [Prog.tick] at h
    split at h
    · rename_i e w' he
      cases h
      exact Config.ok_of_pick he (hp.2 _ (.inl rfl)).1 (hp.2 _ (.inl rfl)).2
    · cases h
      simpa [Config.Ok] using ⟨O.safe_of_rest _ _ hp.1, hp.1, hp.2 _ (.inr rfl)⟩
  | iter body b k => cases h; exact ⟨hm, Prog.wp_unroll hp⟩

theorem Config.ok_resume {c'} (h : c.resume = some c') (hc : c.Ok O Q) : c'.Ok O Q := by
  obtain ⟨control, w⟩ := c
  obtain ⟨hm, hc⟩ := hc
  cases control with
  | running p => exact Config.ok_tick h hm hc
  | awaiting sc cmd k => cases h
  | blocked gs k =>
    simp only [Config.resume, Option.map_eq_some_iff] at h
    obtain ⟨⟨e, w'⟩, he, rfl⟩ := h
    exact Config.ok_of_pick he hc.2.1 hc.2.2
  | woken p => cases h; exact ⟨hm, hc.2⟩

omit [DecidableEq I.Channel] [DecidableEq I.Timer] in
theorem Config.ok_completed {sc cmd k} {w w' : World I σ}
    (h : Config.Ok O Q ⟨.awaiting sc cmd k, w⟩) (hst : w'.st = w.st) (hlog : w'.log = w.log)
    (r : Except Failure (I.Reply cmd)) :
    Config.Ok O Q ⟨.woken (k r), w'.append (.completed cmd r)⟩ := by
  obtain ⟨-, -, hk⟩ := h
  obtain ⟨hrest, hwp⟩ := hk r
  simpa [Config.Ok, hst, hlog] using ⟨O.safe_of_rest _ _ hrest, hrest, hwp⟩

theorem Config.ok_deliver {c' e} (h : c.deliver e = some c') (hc : c.Ok O Q) : c'.Ok O Q := by
  obtain ⟨control, w⟩ := c
  cases e with
  | signal ch x | fire t =>
    simp only [Config.deliver] at h
    split_ifs at h
    cases h
    exact hc
  | cancel =>
    cases control with
    | running p => cases h
    | awaiting sc cmd k =>
      cases sc with
      | attached => cases h; exact Config.ok_completed hc rfl rfl _
      | detached => cases h; exact hc
    | blocked gs k | woken p => cases h; exact hc
  | settle answer =>
    cases control with
    | awaiting sc cmd k => cases h; exact Config.ok_completed hc rfl rfl _
    | running p | blocked gs k | woken p => cases h

theorem Config.ok_reaches {c'} (h : c.Reaches c') (hc : c.Ok O Q) : c'.Ok O Q := by
  induction h with
  | refl => exact hc
  | tail _ hs ih =>
    cases hs with
    | resume h => exact Config.ok_resume h ih
    | deliver e h => exact Config.ok_deliver h ih

omit [DecidableEq I.Channel] [DecidableEq I.Timer] in
theorem Config.Ok.safe (h : c.Ok O Q) : O.safe (O.observe c.world.log) := h.1

omit [DecidableEq I.Channel] [DecidableEq I.Timer] in
theorem Config.Ok.rest (h : c.Ok O Q) (hr : c.control.atRest) :
    O.rest c.world.st (O.observe c.world.log) := by
  obtain ⟨control, w⟩ := c
  cases control with
  | running p => cases hr
  | awaiting sc cmd k | blocked gs k | woken p => exact h.2.1

omit [DecidableEq I.Channel] [DecidableEq I.Timer] in
theorem Config.Ok.result (h : c.Ok O Q) {a} (ha : c.control.result? = some a) :
    Q a c.world.st (O.observe c.world.log) := by
  obtain ⟨control, w⟩ := c
  cases control with
  | running p =>
    cases p with
    | ret b => cases ha; exact h.2
    | _ => cases ha
  | _ => cases ha

/-- Code that meets its weakest precondition keeps the rest condition along every run and
returns with the postcondition. -/
theorem Prog.wp_sound {p s} (hs : O.rest s O.init) (h : p.wp O Q s O.init)
    (hr : (Config.initial p s).Reaches c) : c.Ok O Q :=
  Config.ok_reaches hr ⟨O.safe_of_rest _ _ hs, hs, h⟩

end Soundness

/-! ## Rules for code with early return -/

/-- A command that leaves a state of the monitor as it is. -/
structure Monitor.Ignores {I : Interface} {σ : Type} (O : Monitor I σ) (m : O.State)
    (c : I.Command) : Prop where
  scheduled : ∀ s, O.step m (.scheduled c s) = m
  refused : O.step m (.refused c) = m
  completed : ∀ r, O.step m (.completed c r) = m

namespace Flow

variable {I : Interface} {σ ε ε' α β γ : Type} (O : Monitor I σ)

def wp (p : Flow I σ ε α) (Q : α → σ → O.State → Prop) (E : ε → σ → O.State → Prop) (s : σ)
    (m : O.State) : Prop :=
  Prog.wp O p (fun r => match r with
    | .ok a => Q a
    | .error e => E e) s m

variable {O} {Q : α → σ → O.State → Prop} {E : ε → σ → O.State → Prop} {s : σ} {m : O.State}
  {c : I.Command}

theorem wp_mono {p : Flow I σ ε α} {Q' E'} (h : p.wp O Q E s m) (hQ : ∀ a s m, Q a s m → Q' a s m)
    (hE : ∀ e s m, E e s m → E' e s m) : p.wp O Q' E' s m := by
  refine Prog.wp_mono ?_ h
  rintro (e | a) s m hr
  · exact hE e s m hr
  · exact hQ a s m hr

@[simp] theorem wp_pure (a : α) : (pure a : Flow I σ ε α).wp O Q E s m ↔ Q a s m := Iff.rfl

@[simp] theorem wp_bind (p : Flow I σ ε β) (f : β → Flow I σ ε α) :
    (p >>= f).wp O Q E s m ↔ p.wp O (fun b s m => (f b).wp O Q E s m) E s m := by
  refine (Prog.wp_bind _ _ _ _ _).trans ⟨Prog.wp_mono ?_, Prog.wp_mono ?_⟩ <;>
    rintro (e | b) s m hr <;> exact hr

@[simp] theorem wp_exit (e : ε) : (exit e : Flow I σ ε α).wp O Q E s m ↔ E e s m := Iff.rfl

@[simp] theorem wp_read {Q} : (read : Flow I σ ε σ).wp O Q E s m ↔ Q s s m := Iff.rfl

@[simp] theorem wp_update {Q} (f : σ → σ) :
    (update f : Flow I σ ε Unit).wp O Q E s m ↔ Q () (f s) m := Iff.rfl

@[simp] theorem wp_mark {Q} (x : I.Mark) :
    (mark x : Flow I σ ε Unit).wp O Q E s m ↔
      O.safe (O.step m (.marked x)) ∧ Q () s (O.step m (.marked x)) := Iff.rfl

@[simp] theorem wp_issue {Q} (c : I.Command) :
    (issue c : Flow I σ ε Unit).wp O Q E s m ↔
      (O.safe (O.step m (.issued c)) ∧ Q () s (O.step m (.issued c))) ∧
      O.safe (O.step m (.refused c)) ∧ Q () s (O.step m (.refused c)) := Iff.rfl

theorem wp_exec {Q} :
    (exec c : Flow I σ ε _).wp O Q E s m ↔
      (O.safe (O.step m (.refused c)) ∧ Q (.error .canceled) s (O.step m (.refused c))) ∧
      O.rest s (O.step m (.scheduled c s)) ∧
      ∀ r, O.rest s (O.step (O.step m (.scheduled c s)) (.completed c r)) ∧
        Q r s (O.step (O.step m (.scheduled c s)) (.completed c r)) :=
  ⟨fun h => ⟨h.1 rfl, h.2⟩, fun h => ⟨fun _ => h.1, h.2⟩⟩

theorem wp_execDetached {Q} :
    (execDetached c : Flow I σ ε _).wp O Q E s m ↔
      O.rest s (O.step m (.scheduled c s)) ∧
      ∀ r, O.rest s (O.step (O.step m (.scheduled c s)) (.completed c r)) ∧
        Q r s (O.step (O.step m (.scheduled c s)) (.completed c r)) :=
  ⟨fun h => h.2, fun h => ⟨fun hs => (nomatch hs), h⟩⟩

theorem wp_exec_of_ignores {Q} (hc : O.Ignores m c) (hr : O.rest s m) (h : ∀ r, Q r s m) :
    (exec c : Flow I σ ε _).wp O Q E s m := by
  rw [wp_exec, hc.refused, hc.scheduled]
  refine ⟨⟨O.safe_of_rest _ _ hr, h _⟩, hr, fun r => ?_⟩
  rw [hc.completed]
  exact ⟨hr, h r⟩

theorem wp_execDetached_of_ignores {Q} (hc : O.Ignores m c) (hr : O.rest s m) (h : ∀ r, Q r s m) :
    (execDetached c : Flow I σ ε _).wp O Q E s m := by
  rw [wp_execDetached, hc.scheduled]
  refine ⟨hr, fun r => ?_⟩
  rw [hc.completed]
  exact ⟨hr, h r⟩

@[simp] theorem wp_poll {ch Q} :
    (poll ch : Flow I σ ε _).wp O Q E s m ↔
      Q none s m ∧ ∀ n x, O.safe (O.step m (.received [.receive ch] ch n x)) ∧
        Q (some x) s (O.step m (.received [.receive ch] ch n x)) := Iff.rfl

@[simp] theorem wp_start {Q} (t : I.Timer) :
    (start t : Flow I σ ε Unit).wp O Q E s m ↔
      O.safe (O.step m (.started t)) ∧ Q () s (O.step m (.started t)) := Iff.rfl

theorem wp_select {gs Q} :
    (select gs : Flow I σ ε _).wp O Q E s m ↔
      O.rest s (O.step m (.waiting gs s)) ∧
      ∀ m', m' = m ∨ m' = O.step m (.waiting gs s) →
        (∀ ch, .receive ch ∈ gs → ∀ n x, O.safe (O.step m' (.received gs ch n x)) ∧
          Q (.received ch x) s (O.step m' (.received gs ch n x))) ∧
        ∀ t, .timer t ∈ gs →
          O.safe (O.step m' (.fired gs t)) ∧ Q (.fired t) s (O.step m' (.fired gs t)) := Iff.rfl

theorem wp_when {c : Prop} [Decidable c] {p Q} (hc : c → p.wp O Q E s m) (hn : ¬ c → Q () s m) :
    (when c p).wp O Q E s m := by
  unfold when
  split_ifs with h
  · exact hc h
  · exact hn h

@[simp] theorem wp_call {p E' Q} : (call p : Flow I σ ε' ε).wp O Q E' s m ↔ p.wp O Q Q s m := by
  refine (Prog.wp_bind _ _ _ _ _).trans ⟨Prog.wp_mono ?_, Prog.wp_mono ?_⟩ <;>
    rintro (e | b) s m hr <;> exact hr

/-- The loop rule: an invariant that holds at the start and that every round keeps, unless the
round leaves the loop or returns. -/
theorem wp_loop {body b} {Q : γ → σ → O.State → Prop}
    (Inv : β → σ → O.State → Prop) (hb : Inv b s m)
    (h : ∀ b s m, Inv b s m → (body b).wp O (fun r s m => match r with
      | .inl b' => Inv b' s m
      | .inr c => Q c s m) E s m) :
    (loop body b).wp O Q E s m := by
  refine ⟨Inv, hb, fun b s m hi => ?_⟩
  refine (Prog.wp_bind _ _ _ _ _).2 (Prog.wp_mono ?_ (h b s m hi))
  rintro (e | b' | c) s m hr <;> exact hr

theorem wp_prog {p : Flow I σ ε α} {R} :
    p.prog.wp O R s m ↔ p.wp O (fun a => R (.ok a)) (fun e => R (.error e)) s m := by
  refine ⟨Prog.wp_mono ?_, Prog.wp_mono ?_⟩ <;> rintro (e | a) s m hr <;> exact hr

-- The rules above are all a proof needs; unfolding would run the program.
attribute [irreducible] wp

end Flow

end Durable
