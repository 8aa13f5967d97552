import Uncworks.Durable.Logic

/-!
# Footprints of durable workflows

`Prog.Within P K p Q` says that every entry `p` makes satisfies `P`, that every change of state
keeps `K`, and that the results satisfy `Q`.  It is a weakest precondition that looks neither at
the state nor at the history, so that it can be computed by walking over the code.
-/

namespace Durable

variable {I : Interface} {σ : Type}

/-- Every entry that the code makes satisfies `P`, every change of state keeps `K`, and the results
satisfy `Q`. -/
def Prog.Within (P : Entry I σ → Prop) (K : σ → Prop) :
    {α : Type} → Prog I σ α → (α → Prop) → Prop
  | _, .ret a, Q => Q a
  | _, .read k, Q => ∀ s, K s → (k s).Within P K Q
  | _, .update f k, Q => (∀ s, K s → K (f s)) ∧ k.Within P K Q
  | _, .mark x k, Q => P (.marked x) ∧ k.Within P K Q
  | _, .issue c k, Q => (P (.issued c) ∧ P (.refused c)) ∧ k.Within P K Q
  | _, .exec _ c k, Q =>
    (P (.refused c) ∧ (∀ s, K s → P (.scheduled c s)) ∧ ∀ r, P (.completed c r)) ∧
      ∀ r, (k r).Within P K Q
  | _, .poll ch k, Q => (∀ n x, P (.received [.receive ch] ch n x)) ∧ ∀ x, (k x).Within P K Q
  | _, .start t k, Q => P (.started t) ∧ k.Within P K Q
  | _, .select gs k, Q =>
    ((∀ s, K s → P (.waiting gs s)) ∧ (∀ ch, .receive ch ∈ gs → ∀ n x, P (.received gs ch n x)) ∧
      ∀ t, .timer t ∈ gs → P (.fired gs t)) ∧ ∀ e, (k e).Within P K Q
  | _, .iter (β := β) body b k, Q =>
    ∃ Inv : β → Prop, Inv b ∧ ∀ b, Inv b → (body b).Within P K fun r => match r with
      | .inl b' => Inv b'
      | .inr c => (k c).Within P K Q

namespace Prog

variable {α β : Type} {P : Entry I σ → Prop} {K : σ → Prop}

theorem Within.mono {p : Prog I σ α} {Q Q'} (hQ : ∀ a, Q a → Q' a) (h : p.Within P K Q) :
    p.Within P K Q' := by
  induction p with
  | ret a => exact hQ a h
  | read k ih => exact fun s hs => ih s hQ (h s hs)
  | update g k ih | mark x k ih | issue c k ih | start t k ih => exact ⟨h.1, ih hQ h.2⟩
  | exec sc c k ih => exact ⟨h.1, fun r => ih r hQ (h.2 r)⟩
  | poll ch k ih => exact ⟨h.1, fun x => ih x hQ (h.2 x)⟩
  | select gs k ih => exact ⟨h.1, fun e => ih e hQ (h.2 e)⟩
  | iter body b k ihb ihk =>
    obtain ⟨Inv, hb, hstep⟩ := h
    refine ⟨Inv, hb, fun b hi => ihb b ?_ (hstep b hi)⟩
    rintro (b' | c) hr
    · exact hr
    · exact ihk c hQ hr

theorem within_bind (p : Prog I σ α) (f : α → Prog I σ β) (Q : β → Prop) :
    (p.bind f).Within P K Q ↔ p.Within P K fun a => (f a).Within P K Q := by
  induction p with
  | ret a => exact Iff.rfl
  | read k ih | update g k ih | mark x k ih | issue c k ih | exec sc c k ih | poll ch k ih
  | start t k ih | select gs k ih =>
    simp [bind, Within, ih]
  | iter body b k ihb ihk => simp [bind, Within, ihk]

/-- What the entries of a footprint keep in a monitor and the changes of state keep in the state is
kept by the code. -/
theorem wp_of_within {O} {J : O.State → Prop} {p : Prog I σ α} {Q} (hp : p.Within P K Q)
    (hJ : ∀ m e, J m → P e → J (O.step m e)) (hrest : ∀ s m, K s → J m → O.rest s m) {s m}
    (hs : K s) (hm : J m) : p.wp O (fun a s m => Q a ∧ K s ∧ J m) s m := by
  have hsafe : ∀ {s m e}, K s → J m → P e → O.safe (O.step m e) := fun hs hm he =>
    O.safe_of_rest _ _ (hrest _ _ hs (hJ _ _ hm he))
  induction p generalizing s m with
  | ret a => exact ⟨hp, hs, hm⟩
  | read k ih => exact ih s (hp s hs) hs hm
  | update f k ih => exact ih hp.2 (hp.1 s hs) hm
  | mark x k ih | start t k ih => exact ⟨hsafe hs hm hp.1, ih hp.2 hs (hJ _ _ hm hp.1)⟩
  | issue c k ih =>
    obtain ⟨⟨hi, hr⟩, hk⟩ := hp
    exact ⟨⟨hsafe hs hm hi, ih hk hs (hJ _ _ hm hi)⟩, hsafe hs hm hr, ih hk hs (hJ _ _ hm hr)⟩
  | exec sc c k ih =>
    obtain ⟨⟨hr, hsch, hcom⟩, hk⟩ := hp
    have hin := hJ _ _ hm (hsch s hs)
    refine ⟨fun _ => ⟨hsafe hs hm hr, ih _ (hk _) hs (hJ _ _ hm hr)⟩, hrest _ _ hs hin, fun r => ?_⟩
    have hout := hJ _ _ hin (hcom r)
    exact ⟨hrest _ _ hs hout, ih r (hk r) hs hout⟩
  | poll ch k ih =>
    exact ⟨ih _ (hp.2 _) hs hm, fun n x =>
      ⟨hsafe hs hm (hp.1 n x), ih _ (hp.2 _) hs (hJ _ _ hm (hp.1 n x))⟩⟩
  | select gs k ih =>
    obtain ⟨⟨hwait, hrec, hfire⟩, hk⟩ := hp
    have hw := hJ _ _ hm (hwait s hs)
    refine ⟨hrest _ _ hs hw, fun m' hm' => ?_⟩
    have hm'' : J m' := by rcases hm' with rfl | rfl <;> assumption
    exact ⟨fun ch hch n x => ⟨hsafe hs hm'' (hrec ch hch n x),
        ih _ (hk _) hs (hJ _ _ hm'' (hrec ch hch n x))⟩,
      fun t ht => ⟨hsafe hs hm'' (hfire t ht), ih _ (hk _) hs (hJ _ _ hm'' (hfire t ht))⟩⟩
  | iter body b k ihb ihk =>
    obtain ⟨Inv, hb, hstep⟩ := hp
    refine ⟨fun b s m => Inv b ∧ K s ∧ J m, ⟨hb, hs, hm⟩, fun b s m hi => ?_⟩
    refine Prog.wp_mono ?_ (ihb b (hstep b hi.1) hi.2.1 hi.2.2)
    rintro (b' | c) s m h
    · exact h
    · exact ihk c h.1 h.2.1 h.2.2

end Prog

namespace Flow

variable {ε ε' α β γ : Type}

def Within (P : Entry I σ → Prop) (K : σ → Prop) (p : Flow I σ ε α) (Q : α → Prop)
    (E : ε → Prop) : Prop :=
  Prog.Within P K p fun r => match r with
    | .ok a => Q a
    | .error e => E e

variable {P : Entry I σ → Prop} {K : σ → Prop} {Q : α → Prop} {E : ε → Prop}

theorem Within.mono {p : Flow I σ ε α} (h : p.Within P K Q E) {Q' E'} (hQ : ∀ a, Q a → Q' a)
    (hE : ∀ e, E e → E' e) : p.Within P K Q' E' := by
  refine Prog.Within.mono ?_ h
  rintro (e | a) hr
  · exact hE e hr
  · exact hQ a hr

@[simp] theorem within_pure (a : α) : (pure a : Flow I σ ε α).Within P K Q E ↔ Q a := Iff.rfl

@[simp] theorem within_exit (e : ε) : (exit e : Flow I σ ε α).Within P K Q E ↔ E e := Iff.rfl

@[simp] theorem within_bind (p : Flow I σ ε β) (f : β → Flow I σ ε α) :
    (p >>= f).Within P K Q E ↔ p.Within P K (fun b => (f b).Within P K Q E) E := by
  refine (Prog.within_bind _ _ _).trans ⟨Prog.Within.mono ?_, Prog.Within.mono ?_⟩ <;>
    rintro (e | b) hr <;> exact hr

@[simp] theorem within_read {Q} : (read : Flow I σ ε σ).Within P K Q E ↔ ∀ s, K s → Q s := Iff.rfl

@[simp] theorem within_update {Q} (f : σ → σ) :
    (update f : Flow I σ ε Unit).Within P K Q E ↔ (∀ s, K s → K (f s)) ∧ Q () := Iff.rfl

@[simp] theorem within_mark {Q} (x : I.Mark) :
    (mark x : Flow I σ ε Unit).Within P K Q E ↔ P (.marked x) ∧ Q () := Iff.rfl

@[simp] theorem within_exec {c Q} :
    (exec c : Flow I σ ε _).Within P K Q E ↔
      (P (.refused c) ∧ (∀ s, K s → P (.scheduled c s)) ∧ ∀ r, P (.completed c r)) ∧ ∀ r, Q r :=
  Iff.rfl

@[simp] theorem within_execDetached {c Q} :
    (execDetached c : Flow I σ ε _).Within P K Q E ↔
      (P (.refused c) ∧ (∀ s, K s → P (.scheduled c s)) ∧ ∀ r, P (.completed c r)) ∧ ∀ r, Q r :=
  Iff.rfl

@[simp] theorem within_poll {ch Q} :
    (poll ch : Flow I σ ε _).Within P K Q E ↔
      (∀ n x, P (.received [.receive ch] ch n x)) ∧ ∀ x, Q x := Iff.rfl

@[simp] theorem within_start {Q} (t : I.Timer) :
    (start t : Flow I σ ε Unit).Within P K Q E ↔ P (.started t) ∧ Q () := Iff.rfl

@[simp] theorem within_select {gs Q} :
    (select gs : Flow I σ ε _).Within P K Q E ↔
      ((∀ s, K s → P (.waiting gs s)) ∧
        (∀ ch, .receive ch ∈ gs → ∀ n x, P (.received gs ch n x)) ∧
        ∀ t, .timer t ∈ gs → P (.fired gs t)) ∧ ∀ e, Q e := Iff.rfl

@[simp] theorem within_call {p Q E'} :
    (call p : Flow I σ ε' ε).Within P K Q E' ↔ p.Within P K Q Q := by
  refine (Prog.within_bind _ _ _).trans ⟨Prog.Within.mono ?_, Prog.Within.mono ?_⟩ <;>
    rintro (e | b) hr <;> exact hr

theorem within_loop {body} {b : β} {Q : γ → Prop}
    (h : ∀ b, (body b).Within P K (fun r => ∀ c, r = .inr c → Q c) E) :
    (loop body b).Within P K Q E := by
  refine ⟨fun _ => True, trivial, fun b _ => ?_⟩
  refine (Prog.within_bind _ _ _).2 (Prog.Within.mono ?_ (h b))
  rintro (e | b' | c) hr
  · exact hr
  · trivial
  · exact hr c rfl

theorem wp_of_within {O} {J : O.State → Prop} {p : Flow I σ ε α} (hp : p.Within P K Q E)
    (hJ : ∀ m e, J m → P e → J (O.step m e)) (hrest : ∀ s m, K s → J m → O.rest s m) {s m}
    (hs : K s) (hm : J m) :
    p.wp O (fun a s m => Q a ∧ K s ∧ J m) (fun e s m => E e ∧ K s ∧ J m) s m := by
  unfold wp
  refine Prog.wp_mono ?_ (Prog.wp_of_within hp hJ hrest hs hm)
  rintro (e | a) s m hr
  · exact hr
  · exact hr

-- As for `wp`, the rules are all a proof needs.
attribute [irreducible] Within

end Flow

/-! ## Every entry -/

abbrev Monitor.every (A : Entry I σ → Prop) : Monitor I σ where
  State := Prop
  init := True
  step m e := m ∧ A e
  safe _ := True
  rest _ _ := True
  safe_of_rest _ _ _ := trivial

theorem Monitor.observe_every {A} {log : List (Entry I σ)} :
    (Monitor.every A).observe log ↔ ∀ e ∈ log, A e := by
  induction log using List.reverseRecOn with
  | nil => simp
  | append_singleton log e ih =>
    rw [Monitor.observe_append]
    simp [List.mem_append, or_imp, forall_and, forall_eq, ← ih]

abbrev Monitor.always (A : Entry I σ → Prop) : Monitor I σ :=
  { Monitor.every A with safe := fun m => m, rest := fun _ m => m, safe_of_rest := fun _ _ h => h }

abbrev Monitor.record {β : Type} (f : Entry I σ → Option β) : Monitor I σ where
  State := List β
  init := []
  step m e := m ++ (f e).toList
  safe _ := True
  rest _ _ := True
  safe_of_rest _ _ _ := trivial

theorem Monitor.observe_record {β : Type} {f : Entry I σ → Option β} (log : List (Entry I σ)) :
    (Monitor.record f).observe log = log.filterMap f := by
  induction log using List.reverseRecOn with
  | nil => rfl
  | append_singleton log e ih =>
    rw [Monitor.observe_append, ih]
    rcases hf : f e with _ | b <;> simp [hf]

abbrev Monitor.recordAlways {β : Type} (f : Entry I σ → Option β) (S : List β → Prop) :
    Monitor I σ :=
  { Monitor.record f with safe := S, rest := fun _ => S, safe_of_rest := fun _ _ h => h }

variable [DecidableEq I.Channel] [DecidableEq I.Timer] {ε α : Type}

theorem Config.Reaches.within {P K Q E} {p : Flow I σ ε α} {s c}
    (h : (Config.initial p.prog s).Reaches c) (hp : p.Within P K Q E) (hs : K s) :
    ∀ e ∈ c.world.log, P e := by
  have hwp : p.prog.wp (Monitor.always P) (fun _ _ m => m) s True :=
    Flow.wp_prog.2 (Flow.wp_mono
      (Flow.wp_of_within (J := id) hp (fun _ _ hm he => ⟨hm, he⟩) (fun _ _ _ hm => hm) hs trivial)
      (fun _ _ _ hr => hr.2.2) fun _ _ _ hr => hr.2.2)
  exact Monitor.observe_every.1 (Prog.wp_sound (O := Monitor.always P) trivial hwp h).safe

end Durable
