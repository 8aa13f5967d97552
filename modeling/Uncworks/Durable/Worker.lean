import Uncworks.Durable.History

/-!
# Commands that are executed at least once

The service hands a scheduled command to a worker, which may have to attempt it more than once: an
attempt can take effect and its result be lost, or be cut off half-way.  A `Service` is a workflow
together with the environment that its workers act on.
-/

namespace Durable

open List

structure Worker (I : Interface) where
  /-- The environment the workers act on. -/
  Env : Type
  /-- What an attempt at a command may do to the environment, and what it returns unless it is cut
  off. -/
  Attempt : (c : I.Command) → Env → Env → Option (Except Failure (I.Reply c)) → Prop
  /-- What else may happen to the environment. -/
  Drift : Env → Env → Prop

abbrev Answer (I : Interface) := (c : I.Command) × Except Failure (I.Reply c)

/-- A workflow with the environment of its workers and the results they have returned. -/
structure Service {I : Interface} (W : Worker I) (σ α : Type) where
  run : Config I σ α
  env : W.Env
  answers : List (Answer I)

variable {I : Interface} {σ α : Type} {W : Worker I}

def Event.Unanswered : Event I → Prop
  | .settle answer => ∀ c a, answer c ≠ .ok a
  | _ => True

variable [DecidableEq I.Channel] [DecidableEq I.Timer]

/-! ## Replies in the history -/

theorem Config.resume_ne_woken {c : Config I σ α} {p w} : c.resume ≠ some ⟨.woken p, w⟩ := by
  obtain ⟨control, w'⟩ := c
  intro h
  cases control with
  | running q =>
    cases q <;> simp [resume, Prog.tick] at h <;> (try split at h) <;> cases h
  | awaiting sc cmd k | woken q => cases h
  | blocked gs k =>
    simp only [resume, Option.map_eq_some_iff] at h
    obtain ⟨r, -, hr⟩ := h
    cases hr

theorem Config.completed_of_resume {c c' : Config I σ α} (h : c.resume = some c') {cmd r}
    (hr : .completed cmd r ∈ c'.world.log) : .completed cmd r ∈ c.world.log := by
  have hmove := (Config.Step.resume h).move
  cases hmove <;> first
    | exact hr
    | exact absurd h resume_ne_woken
    | (rcases mem_append.1 hr with hr | hr
       · exact hr
       · cases mem_singleton.1 hr <;> contradiction)

theorem Config.completed_of_deliver {c c' : Config I σ α} {e} (he : e.Unanswered)
    (h : c.deliver e = some c') {cmd a} (ha : .completed cmd (.ok a) ∈ c'.world.log) :
    .completed cmd (.ok a) ∈ c.world.log := by
  obtain ⟨control, w⟩ := c
  cases e with
  | signal ch x | fire t =>
    simp only [deliver] at h
    split_ifs at h
    cases h
    exact ha
  | cancel =>
    cases control with
    | running p => cases h
    | awaiting sc cmd' k =>
      cases sc with
      | attached =>
        cases h
        rcases mem_append.1 ha with ha | ha
        · exact ha
        · cases mem_singleton.1 ha
      | detached => cases h; exact ha
    | blocked gs k | woken p => cases h; exact ha
  | settle answer =>
    cases control with
    | awaiting sc cmd' k =>
      cases h
      rcases mem_append.1 ha with ha | ha
      · exact ha
      · cases hans : answer cmd' with
        | ok b => exact absurd hans (he cmd' b)
        | error err =>
          rw [hans] at ha
          cases mem_singleton.1 ha
    | running p | blocked gs k | woken p => cases h

namespace Service

def start (W : Worker I) (c : Config I σ α) (env : W.Env) : Service W σ α := ⟨c, env, []⟩

inductive Step : Service W σ α → Service W σ α → Prop
  | resume {s c'} (h : s.run.resume = some c') : Step s { s with run := c' }
  | deliver {s c'} (e : Event I) (he : e.Unanswered) (h : s.run.deliver e = some c') :
      Step s { s with run := c' }
  | settle {s sc c k w} (a : I.Reply c) (hrun : s.run = ⟨.awaiting sc c k, w⟩)
      (ha : ⟨c, .ok a⟩ ∈ s.answers) :
      Step s { s with run := ⟨.woken (k (.ok a)), w.append (.completed c (.ok a))⟩ }
  | attempt {s env'} (c : I.Command) (st : σ) (r : Option (Except Failure (I.Reply c)))
      (hc : .scheduled c st ∈ s.run.world.log) (h : W.Attempt c s.env env' r) :
      Step s { s with env := env', answers := s.answers ++ r.toList.map fun r => ⟨c, r⟩ }
  | drift {s env'} (h : W.Drift s.env env') : Step s { s with env := env' }

def Reaches : Service W σ α → Service W σ α → Prop := Relation.ReflTransGen Step

variable {s : Service W σ α}

theorem Step.run {s'} (h : s.Step s') : s'.run = s.run ∨ s.run.Step s'.run := by
  cases h with
  | resume h => exact .inr (.resume h)
  | deliver e he h => exact .inr (.deliver e h)
  | @settle sc c k w a hrun ha =>
    classical
    let answer (c' : I.Command) : Except Failure (I.Reply c') :=
      if hc : c = c' then .ok (hc ▸ a) else .error .canceled
    refine .inr (.deliver (.settle answer) ?_)
    simp [Config.deliver, hrun, answer]
  | attempt c st r hc h | drift h => exact .inl rfl

theorem Reaches.run {s'} (h : s.Reaches s') : s.run.Reaches s'.run := by
  induction h with
  | refl => exact .refl
  | tail _ hs ih =>
    rcases hs.run with heq | hstep
    · rwa [heq]
    · exact .tail ih hstep

theorem Step.log_grows {s'} (h : s.Step s') : s.run.world.log <+: s'.run.world.log := by
  rcases h.run with heq | hstep
  · exact heq ▸ prefix_rfl
  · exact Config.Reaches.log_grows (.single hstep)

/-- An invariant of the environment and of the answers, given the history: longer histories keep it,
and so do attempts at scheduled commands and all else that happens to the environment. -/
theorem Reaches.invariant {c env}
    (h : (start W c env).Reaches s) (Inv : List (Entry I σ) → W.Env → List (Answer I) → Prop)
    (hstart : Inv c.world.log env [])
    (hlog : ∀ {log log' env as}, log <+: log' → Inv log env as → Inv log' env as)
    (hattempt : ∀ {log env env' as} (c : I.Command) (st : σ) (r : Option (Except Failure (I.Reply c))),
      .scheduled c st ∈ log → W.Attempt c env env' r → Inv log env as →
        Inv log env' (as ++ r.toList.map fun r => ⟨c, r⟩))
    (hdrift : ∀ {log env env' as}, W.Drift env env' → Inv log env as → Inv log env' as) :
    Inv s.run.world.log s.env s.answers := by
  induction h with
  | refl => exact hstart
  | tail _ hs ih =>
    cases hs with
    | resume h => exact hlog (Step.log_grows (.resume h)) ih
    | deliver e he h => exact hlog (Step.log_grows (.deliver e he h)) ih
    | settle a hrun ha => exact hlog (Step.log_grows (.settle a hrun ha)) ih
    | attempt c st r hc h => exact hattempt c st r hc h ih
    | drift h => exact hdrift h ih

theorem Reaches.answered {p v env} (h : (start W (.initial p v) env).Reaches s) {c a}
    (hc : .completed c (.ok a) ∈ s.run.world.log) : ⟨c, .ok a⟩ ∈ s.answers := by
  induction h with
  | refl => cases hc
  | tail _ hs ih =>
    cases hs with
    | resume h => exact ih (Config.completed_of_resume h hc)
    | deliver e he h => exact ih (Config.completed_of_deliver he h hc)
    | settle a' hrun ha =>
      rcases mem_append.1 hc with hold | hnew
      · exact ih (by rwa [hrun])
      · cases mem_singleton.1 hnew
        exact ha
    | attempt c st r hsch h => exact mem_append_left _ (ih hc)
    | drift h => exact ih hc

/-! ## Building runs -/

theorem reaches_settleDown (fuel : ℕ) (s : Service W σ α) :
    s.Reaches { s with run := s.run.settleDown fuel } := by
  induction fuel generalizing s with
  | zero => exact .refl
  | succ fuel ih =>
    simp only [Config.settleDown]
    split
    · rename_i c' h
      exact .head (.resume h) (ih { s with run := c' })
    · exact .refl

variable {es : List (Event I)}

theorem reaches_after (hes : ∀ e ∈ es, e.Unanswered) (fuel : ℕ)
    (s : Service W σ α) : s.Reaches { s with run := s.run.after fuel es } := by
  have hplay : ∀ {s : Service W σ α} {c'}, s.run.play fuel es = some c' →
      s.Reaches { s with run := c' } := by
    induction es with
    | nil => intro s c' h; cases h; exact reaches_settleDown fuel s
    | cons e es ih =>
      intro s c' h
      simp only [Config.play, Option.bind_eq_some_iff] at h
      obtain ⟨c₁, hd, hp⟩ := h
      have hrest := ih (fun e he => hes e (mem_cons_of_mem _ he)) (s := { s with run := c₁ }) hp
      exact (reaches_settleDown fuel s).trans (.head (.deliver e (hes e (by simp)) hd) hrest)
  unfold Config.after
  rcases h : s.run.play fuel es with _ | c'
  · exact .refl
  · exact hplay h

/-- The results an event brings can be had from attempts that leave the environment as it is. -/
def Answers (W : Worker I) (env : W.Env) : Event I → Prop
  | .settle answer => ∀ c a, answer c = .ok a → W.Attempt c env env (some (.ok a))
  | _ => True

theorem reaches_deliver {e c'} (he : Answers W s.env e) (hs : s.run.Parked)
    (h : s.run.deliver e = some c') : ∃ answers, s.Reaches { s with run := c', answers } := by
  cases e with
  | settle answer =>
    obtain ⟨⟨control, w⟩, env, answers⟩ := s
    cases control with
    | awaiting sc c k =>
      obtain ⟨pre, hpre⟩ := hs
      cases h
      rcases ha : answer c with err | a
      · refine ⟨answers, .single (.deliver (.settle fun _ => .error err) (fun _ _ => nofun) ?_)⟩
        simp [Config.deliver]
      · have hmem : .scheduled c w.st ∈ w.log := by
          rw [hpre]
          exact mem_append_right _ (mem_singleton_self _)
        have hattempt : Step ⟨⟨.awaiting sc c k, w⟩, env, answers⟩ _ :=
          .attempt c w.st (some (.ok a)) hmem (he c a ha)
        exact ⟨answers ++ [⟨c, .ok a⟩], .tail (.single hattempt) (.settle a rfl (by simp))⟩
    | running p | blocked gs k | woken p => cases h
  | signal ch x => exact ⟨s.answers, .single (.deliver (.signal ch x) trivial h)⟩
  | fire t => exact ⟨s.answers, .single (.deliver (.fire t) trivial h)⟩
  | cancel => exact ⟨s.answers, .single (.deliver .cancel trivial h)⟩

theorem reaches_play {fuel c'} (hes : ∀ e ∈ es, Answers W s.env e) (hs : s.run.Parked)
    (h : s.run.play fuel es = some c') : ∃ answers, s.Reaches { s with run := c', answers } := by
  induction es generalizing s with
  | nil => cases h; exact ⟨s.answers, reaches_settleDown fuel s⟩
  | cons e es ih =>
    simp only [Config.play, Option.bind_eq_some_iff] at h
    obtain ⟨c₁, hd, hp⟩ := h
    have hparked :=
      (Config.reaches_settleDown fuel s.run).induct Config.Parked hs fun _ _ hc hm => hm.parked hc
    obtain ⟨answers, h₁⟩ := reaches_deliver (s := { s with run := s.run.settleDown fuel })
      (hes e mem_cons_self) hparked hd
    have hparked' : c₁.Parked := (Config.Step.deliver e hd).move.parked hparked
    obtain ⟨answers', h₂⟩ := ih (s := { s with run := c₁, answers })
      (fun e he => hes e (mem_cons_of_mem _ he)) hparked' hp
    exact ⟨answers', ((reaches_settleDown fuel s).trans h₁).trans h₂⟩

theorem Reaches.after {p v env env'} {c : Config I σ α} {answers}
    (h : (start W (.initial p v) env).Reaches ⟨c, env', answers⟩) (fuel : ℕ)
    (hes : ∀ e ∈ es, Answers W env' e) :
    ∃ answers, (start W (.initial p v) env).Reaches ⟨c.after fuel es, env', answers⟩ := by
  unfold Config.after
  rcases hplay : c.play fuel es with _ | c'
  · exact ⟨answers, h⟩
  · obtain ⟨answers', h'⟩ := reaches_play (s := ⟨c, env', answers⟩) hes h.run.parked hplay
    exact ⟨answers', h.trans h'⟩

end Service

end Durable
