import Uncworks.Durable.Logic

/-!
# Histories of durable workflows

The history of a resting workflow ends with the entry of the point where it rests, the rest condition
of a monitor holds at every such entry, started timers are ready once the context is cancelled, and a
signal received after a wait for its channel was sent after the wait began.

`Config.Move` says once what a step can do; the rest is read off it.
-/

namespace Durable

open List Function

variable {I : Interface} {σ α : Type}

/-- Entries that mark neither a point of rest nor a reply, a signal or a timer. -/
def Entry.plain : Entry I σ → Bool
  | .refused _ => true
  | .issued _ => true
  | .marked _ => true
  | _ => false

variable [DecidableEq I.Channel] [DecidableEq I.Timer] {w : World I σ} {ch : I.Channel}
  {gs : List (Guard I)} {c : Config I σ α} {p : Prog I σ α} {x : I.Message ch}
  {post : List (Entry I σ)} {s : σ} {e : Entry I σ} {t : I.Timer} {c' : Config I σ α}
  {w' : World I σ}

inductive Config.Move : Config I σ α → Config I σ α → Prop
  | silent {ctl w} (p : Prog I σ α) (s : σ) : Move ⟨ctl, w⟩ ⟨.running p, { w with st := s }⟩
  | note {ctl w} (p : Prog I σ α) (e : Entry I σ) (he : e.plain) :
      Move ⟨ctl, w⟩ ⟨.running p, w.append e⟩
  | schedule {ctl w} (sc : Scope) (c : I.Command) (k : Except Failure (I.Reply c) → Prog I σ α) :
      Move ⟨ctl, w⟩ ⟨.awaiting sc c k, w.append (.scheduled c w.st)⟩
  | wait {ctl w} (gs : List (Guard I)) (k : Picked I → Prog I σ α)
      (h : ∀ ch, .receive ch ∈ gs → w.buffer ch = []) :
      Move ⟨ctl, w⟩ ⟨.blocked gs k, w.append (.waiting gs w.st)⟩
  | take {ctl w} (p : Prog I σ α) (gs : List (Guard I)) (ch : I.Channel) (n : ℕ) (x : I.Message ch)
      (hc : w.choice gs = some (.received ch x)) (h : (w.buffer ch).head? = some (n, x)) :
      Move ⟨ctl, w⟩ ⟨.running p, w.take gs ch n x⟩
  | expire {ctl w} (p : Prog I σ α) (gs : List (Guard I)) (t : I.Timer)
      (hc : w.choice gs = some (.fired t)) : Move ⟨ctl, w⟩ ⟨.running p, w.append (.fired gs t)⟩
  | start {ctl w} (p : Prog I σ α) (t : I.Timer) :
      Move ⟨ctl, w⟩ ⟨.running p,
        (w.setTimer t (if w.canceled then .ready else .pending)).append (.started t)⟩
  | settle {ctl w} (p : Prog I σ α) (c : I.Command) (r : Except Failure (I.Reply c)) :
      Move ⟨ctl, w⟩ ⟨.woken p, w.append (.completed c r)⟩
  | abandon {ctl w} (p : Prog I σ α) (c : I.Command) :
      Move ⟨ctl, w⟩ ⟨.woken p, w.cancel.append (.completed c (.error .canceled))⟩
  | send {ctl w} (h : ctl.atRest) (ch : I.Channel) (x : I.Message ch) :
      Move ⟨ctl, w⟩ ⟨ctl, w.send ch x⟩
  | fire {ctl w} (h : ctl.atRest) (t : I.Timer) (ht : w.timers t = .pending) :
      Move ⟨ctl, w⟩ ⟨ctl, w.setTimer t .ready⟩
  | cancel {ctl w} (h : ctl.atRest) : Move ⟨ctl, w⟩ ⟨ctl, w.cancel⟩

omit [DecidableEq I.Timer] in
theorem World.buffer_of_pickFrom {all} (h : w.pickFrom all gs = none) (ch : I.Channel)
    (hch : .receive ch ∈ gs) : w.buffer ch = [] := by
  induction gs with
  | nil => cases hch
  | cons g gs ih =>
    cases g with
    | receive ch' =>
      simp only [World.pickFrom] at h
      split at h
      · cases h
      · rename_i hb
        rcases mem_cons.1 hch with heq | hmem
        · cases heq; exact hb
        · exact ih h hmem
    | timer t =>
      simp only [World.pickFrom] at h
      split_ifs at h
      rcases mem_cons.1 hch with heq | hmem
      · cases heq
      · exact ih h hmem

omit [DecidableEq I.Timer] in
theorem World.timer_of_pickFrom {all} (h : w.pickFrom all gs = none) (t : I.Timer)
    (ht : .timer t ∈ gs) : w.timers t ≠ .ready := by
  induction gs with
  | nil => cases ht
  | cons g gs ih =>
    cases g with
    | receive ch =>
      simp only [World.pickFrom] at h
      split at h
      · cases h
      · rcases mem_cons.1 ht with heq | hmem
        · cases heq
        · exact ih h hmem
    | timer t' =>
      simp only [World.pickFrom] at h
      split_ifs at h with hready
      rcases mem_cons.1 ht with heq | hmem
      · cases heq; exact hready
      · exact ih h hmem

theorem Config.move_of_pick {ctl e} (p : Prog I σ α) (h : w.pick gs = some (e, w')) :
    Config.Move ⟨ctl, w⟩ ⟨.running p, w'⟩ := by
  rcases World.pickFrom_cases h with ⟨ch, n, x, -, rfl, rfl, hb⟩ | ⟨t, -, rfl, rfl, -⟩
  · exact .take p gs ch n x (by simp [World.choice, h]) hb
  · exact .expire p gs t (by simp [World.choice, h])

theorem Config.move_of_tick
    (h : p.tick w = some c) : Config.Move ⟨.running p, w⟩ c := by
  cases p with
  | ret a => cases h
  | read k | update f k | iter body b k => cases h; exact .silent _ _
  | mark x k => cases h; exact .note _ (.marked x) rfl
  | issue cmd k => cases h; cases w.canceled <;> exact .note _ _ rfl
  | exec sc cmd k =>
    simp only [Prog.tick] at h
    split_ifs at h
    · cases h; exact .note _ (.refused cmd) rfl
    · cases h; exact .schedule sc cmd k
  | poll ch k =>
    simp only [Prog.tick] at h
    split at h
    · rename_i n x rest hb
      cases h
      exact .take _ _ ch n x (by simp [World.choice, World.pick, World.pickFrom, hb]) (by simp [hb])
    · cases h; exact .silent _ _
  | start t k => cases h; exact .start _ t
  | select gs k =>
    simp only [Prog.tick] at h
    split at h
    · rename_i e w' he
      cases h
      exact Config.move_of_pick _ he
    · rename_i hn
      cases h
      exact .wait gs k (World.buffer_of_pickFrom hn)

theorem Config.move_of_deliver {e} (h : c.deliver e = some c') : c.Move c' := by
  obtain ⟨control, w⟩ := c
  cases e with
  | signal ch x =>
    simp only [Config.deliver] at h
    split_ifs at h with hr
    cases h
    exact .send hr ch x
  | fire t =>
    simp only [Config.deliver] at h
    split_ifs at h with ht
    cases h
    exact .fire ht.1 t ht.2
  | cancel =>
    cases control with
    | running p => cases h
    | awaiting sc cmd k =>
      cases sc with
      | attached => cases h; exact .abandon _ cmd
      | detached => cases h; exact .cancel rfl
    | blocked gs k | woken p => cases h; exact .cancel rfl
  | settle answer =>
    cases control with
    | awaiting sc cmd k => cases h; exact .settle _ cmd _
    | running p | blocked gs k | woken p => cases h

theorem Config.Step.move (h : c.Step c') : c.Move c' := by
  cases h with
  | deliver e h => exact Config.move_of_deliver h
  | resume h =>
    obtain ⟨control, w⟩ := c
    cases control with
    | running p => exact Config.move_of_tick h
    | awaiting sc cmd k => cases h
    | blocked gs k =>
      simp only [Config.resume, Option.map_eq_some_iff] at h
      obtain ⟨⟨e, w'⟩, he, rfl⟩ := h
      exact Config.move_of_pick _ he
    | woken p => cases h; exact .silent _ _

theorem Config.Reaches.induct (Inv : Config I σ α → Prop)
    (h : c.Reaches c') (h₀ : Inv c) (hm : ∀ c c', Inv c → c.Move c' → Inv c') : Inv c' := by
  induction h with
  | refl => exact h₀
  | tail _ hs ih => exact hm _ _ ih hs.move

/-! ## The history grows -/

theorem Config.Move.log_grows (h : c.Move c') :
    c'.world.log = c.world.log ∨ ∃ e, c'.world.log = c.world.log ++ [e] := by
  cases h with
  | silent | send | fire | cancel => exact .inl rfl
  | _ => exact .inr ⟨_, rfl⟩

theorem Config.Reaches.log_grows (h : c.Reaches c') : c.world.log <+: c'.world.log := by
  refine h.induct (fun c' => c.world.log <+: c'.world.log) prefix_rfl ?_
  intro c₁ c₂ h₁ hm
  rcases hm.log_grows with heq | ⟨e, heq⟩ <;> rw [heq]
  · exact h₁
  · exact h₁.trans (prefix_append _ _)

/-! ## Where a workflow rests -/

/-- The history of a resting workflow ends with the entry of the point where it rests. -/
def Config.Parked (c : Config I σ α) : Prop :=
  match c.control with
  | .running _ => True
  | .awaiting _ cmd _ => ∃ pre, c.world.log = pre ++ [.scheduled cmd c.world.st]
  | .blocked gs _ => ∃ pre, c.world.log = pre ++ [.waiting gs c.world.st]
  | .woken _ => c.world.log = [] ∨ ∃ pre cmd r, c.world.log = pre ++ [.completed cmd r]

theorem Config.Move.parked (h : c.Move c') (hc : c.Parked) : c'.Parked := by
  cases h with
  | schedule | wait => exact ⟨_, rfl⟩
  | settle | abandon => exact .inr ⟨_, _, _, rfl⟩
  | send | fire | cancel => exact hc
  | _ => trivial

theorem Config.Reaches.parked
    (h : (Config.initial p s).Reaches c) : c.Parked :=
  h.induct Config.Parked (.inl rfl) fun _ _ hc hm => hm.parked hc

/-! ## Timers -/

/-- Timers of a cancelled context are ready, and a started timer is pending or ready. -/
structure World.TimersOk (w : World I σ) : Prop where
  canceled : w.canceled → ∀ t, w.timers t ≠ .pending
  started : ∀ t, .started t ∈ w.log → w.timers t ≠ .off

omit [DecidableEq I.Channel] [DecidableEq I.Timer] in
theorem World.TimersOk.append (hw : w.TimersOk)
    (he : ∀ t, e ≠ .started t) : (w.append e).TimersOk := by
  refine ⟨hw.canceled, fun t ht => ?_⟩
  rcases mem_append.1 ht with ht | ht
  · exact hw.started t ht
  · exact absurd (mem_singleton.1 ht).symm (he t)

omit [DecidableEq I.Channel] [DecidableEq I.Timer] in
theorem World.TimersOk.cancel (hw : w.TimersOk) : w.cancel.TimersOk := by
  refine ⟨fun _ t => ?_, fun t ht => ?_⟩
  · by_cases hp : w.timers t = .pending <;> simp [World.cancel, hp]
  · have hne := hw.started t ht
    by_cases hp : w.timers t = .pending <;> simp [World.cancel, hp, hne]

omit [DecidableEq I.Channel] in
theorem World.TimersOk.setTimer (hw : w.TimersOk) {q}
    (hc : w.canceled → q = .ready) (hq : q ≠ .off) : (w.setTimer t q).TimersOk := by
  refine ⟨fun hcan u => ?_, fun u hu => ?_⟩ <;> by_cases hut : u = t
  · subst hut; simp [World.setTimer, hc hcan]
  · simpa [World.setTimer, hut] using hw.canceled hcan u
  · subst hut; simpa [World.setTimer] using hq
  · simpa [World.setTimer, hut] using hw.started u hu

theorem Config.Move.timersOk (h : c.Move c') (hc : c.world.TimersOk) : c'.world.TimersOk := by
  cases h with
  | silent | send => exact ⟨hc.canceled, hc.started⟩
  | note p e he => exact hc.append (by rintro t rfl; cases he)
  | schedule | wait | expire | settle => exact hc.append (by simp)
  | take => exact ⟨hc.canceled, fun t ht => hc.started t (by simpa [World.take] using ht)⟩
  | @start ctl w p t =>
    have hset : (w.setTimer t (if w.canceled then .ready else .pending)).TimersOk :=
      hc.setTimer (fun hcan => if_pos hcan) (by split_ifs <;> simp)
    refine ⟨hset.canceled, fun u hu => ?_⟩
    rcases mem_append.1 hu with hu | hu
    · exact hset.started u hu
    · obtain rfl : u = t := by simpa using hu
      show Function.update w.timers u _ u ≠ _
      split_ifs <;> simp
  | abandon => exact hc.cancel.append (by simp)
  | fire => exact hc.setTimer (fun _ => rfl) (by simp)
  | cancel => exact hc.cancel

theorem Config.Reaches.canceled (h : c.Reaches c')
    (hc : c.world.canceled) : c'.world.canceled := by
  refine h.induct (fun c => c.world.canceled) hc ?_
  intro c₁ c₂ h₁ hm
  cases hm with
  | abandon | cancel => rfl
  | _ => exact h₁

theorem Config.Reaches.timer_ready
    (h : (Config.initial p s).Reaches c) (hc : c.world.canceled)
    (ht : .started t ∈ c.world.log) : c.world.timers t = .ready := by
  have hok := h.induct (fun c => c.world.TimersOk) ⟨nofun, nofun⟩ fun _ _ hc hm => hm.timersOk hc
  have hcanceled := hok.canceled hc t
  have hstarted := hok.started t ht
  rcases hq : c.world.timers t <;> simp_all

/-! ## Signals -/

/-- Signals buffered or received on a channel the workflow has begun to wait for were sent after the
wait began. -/
def World.StampsOk (w : World I σ) : Prop :=
  ∀ pre gs s post ch, w.log = pre ++ .waiting gs s :: post → .receive ch ∈ gs →
    (∀ m ∈ w.buffer ch, pre.length < m.1) ∧ ∀ gs' n x, .received gs' ch n x ∈ post → pre.length < n

omit [DecidableEq I.Channel] [DecidableEq I.Timer] in
theorem World.StampsOk.append (hw : w.StampsOk)
    (hlog : w'.log = w.log ++ [e]) (hbuf : ∀ ch, w'.buffer ch ⊆ w.buffer ch)
    (hr : ∀ gs ch n x, e = .received gs ch n x → (n, x) ∈ w.buffer ch)
    (he : ∀ gs s, e = .waiting gs s → ∀ ch, .receive ch ∈ gs → w.buffer ch = []) :
    w'.StampsOk := by
  intro pre gs s post ch hsplit hch
  rw [hlog] at hsplit
  rcases eq_nil_or_concat post with rfl | ⟨post', last, rfl⟩
  · obtain ⟨-, rfl⟩ : w.log = pre ∧ e = .waiting gs s := by simpa using hsplit
    have hempty := subset_nil.1 (he gs s rfl ch hch ▸ hbuf ch)
    simp [hempty]
  · rw [concat_eq_append, ← cons_append, ← append_assoc] at hsplit
    obtain ⟨hpre, hlast⟩ := append_inj' hsplit rfl
    obtain ⟨hold, hrec⟩ := hw pre gs s post' ch hpre hch
    refine ⟨fun m hm => hold m (hbuf ch hm), fun gs' n x hx => ?_⟩
    simp only [concat_eq_append, mem_append, mem_singleton] at hx
    rcases hx with hx | rfl
    · exact hrec gs' n x hx
    · exact hold (n, x) (hr gs' ch n x (singleton_inj.1 hlast))

omit [DecidableEq I.Timer] in
theorem World.buffer_take {n} (ch' : I.Channel) : (w.take gs ch n x).buffer ch' ⊆ w.buffer ch' := by
  intro m hm
  by_cases h : ch' = ch
  · subst h
    simp only [World.take, World.buffer, update_self] at hm ⊢
    rw [← drop_drop] at hm
    exact mem_of_mem_drop hm
  · simpa [World.take, World.buffer, h] using hm

omit [DecidableEq I.Timer] in
theorem World.buffer_send (ch' : I.Channel) {m} (hm : m ∈ (w.send ch x).buffer ch') :
    m ∈ w.buffer ch' ∨ m.1 = w.log.length := by
  by_cases h : ch' = ch
  · subst h
    simp only [World.send, World.buffer, update_self, drop_append,
      mem_append] at hm
    refine hm.imp_right fun hm => ?_
    have := mem_of_mem_drop hm
    simp_all
  · left
    simpa [World.send, World.buffer, h] using hm

theorem Config.Move.stampsOk (h : c.Move c') (hc : c.world.StampsOk) : c'.world.StampsOk := by
  cases h with
  | silent | fire | cancel => exact hc
  | note p e he =>
    exact hc.append rfl (fun _ => Subset.refl _) (by rintro _ _ _ _ rfl; cases he)
      (by rintro _ _ rfl; cases he)
  | schedule | expire | start | settle | abandon =>
    exact hc.append rfl (fun _ => Subset.refl _) nofun nofun
  | wait gs k hempty =>
    refine hc.append rfl (fun _ => Subset.refl _) nofun ?_
    rintro _ _ h
    cases h
    exact hempty
  | @take ctl w p gs ch n x hchoice hb =>
    refine hc.append (e := .received gs ch n x) rfl World.buffer_take ?_ nofun
    rintro _ _ _ _ h
    cases h
    exact mem_of_mem_head? hb
  | @send ctl w hr ch x =>
    intro pre gs s post ch' hlog hch
    obtain ⟨hbuf, hrec⟩ := hc pre gs s post ch' hlog hch
    refine ⟨fun m hm => ?_, hrec⟩
    rcases World.buffer_send ch' hm with hm | hm
    · exact hbuf m hm
    · have hlen : w.log.length = _ := congrArg length hlog
      simp only [length_append, length_cons] at hlen
      omega

theorem Config.Reaches.sent_after_wait (h : (Config.initial p s).Reaches c) {pre s'}
    (hlog : c.world.log = pre ++ .waiting gs s' :: post) (hch : .receive ch ∈ gs) {gs' n}
    (hx : .received gs' ch n x ∈ post) : pre.length < n := by
  have hok : c.world.StampsOk :=
    h.induct (fun c => c.world.StampsOk)
      (by simp [World.StampsOk, Config.initial, World.initial]) fun _ _ hc hm => hm.stampsOk hc
  exact (hok pre gs s' post ch hlog hch).2 gs' n x hx

omit [DecidableEq I.Timer] in
theorem World.choice_setState : World.choice { w with st := s } gs = w.choice gs := by
  have hfrom : ∀ all gs : List (Guard I),
      (World.pickFrom { w with st := s } all gs).map Prod.fst = (w.pickFrom all gs).map Prod.fst := by
    intro all gs
    induction gs with
    | nil => rfl
    | cons g gs ih =>
      cases g with
      | receive ch =>
        have hbuf : World.buffer { w with st := s } ch = w.buffer ch := rfl
        simp only [World.pickFrom, hbuf]
        split
        · rfl
        · exact ih
      | timer t =>
        simp only [World.pickFrom]
        split_ifs
        · rfl
        · exact ih
  exact hfrom gs gs

theorem Config.Reaches.chosen (h : c.Reaches c') (hp : c.control = .running p) {n}
    (hlog : c'.world.log = c.world.log ++ .received gs ch n x :: post) :
    c.world.choice gs = some (.received ch x) := by
  induction h using Relation.ReflTransGen.head_induction_on generalizing p with
  | refl => simp at hlog
  | @head c₁ c₂ hstep hr ih =>
    have hnext : ∀ e, c₂.world.log = c₁.world.log ++ [e] → e = .received gs ch n x := by
      intro e he
      obtain ⟨t, ht⟩ := Config.Reaches.log_grows hr
      rw [hlog, he, append_assoc] at ht
      exact (by simpa using append_cancel_left ht : e = _ ∧ t = post).1
    cases hstep.move with
    | silent p' s => exact World.choice_setState.symm.trans (ih (p := p') rfl hlog)
    | note p' e he => cases hnext e rfl; cases he
    | schedule | wait | expire | start | settle | abandon => cases hnext _ rfl
    | take p' gs' ch' n' x' hc hb => cases hnext _ rfl; exact hc
    | send hrest | fire hrest | cancel hrest => simp only at hp; subst hp; cases hrest

/-! ## Priority -/

def World.CursorsOk (w : World I σ) : Prop := ∀ ch, w.taken ch ≤ (w.inbox ch).length

theorem Config.Move.cursorsOk (h : c.Move c') (hc : c.world.CursorsOk) : c'.world.CursorsOk := by
  cases h with
  | @take ctl w p gs ch n x hchoice hb =>
    intro ch'
    by_cases hch : ch' = ch
    · subst hch
      have hne : w.buffer ch' ≠ [] := by
        intro hnil
        simp [hnil] at hb
      have hlt : w.taken ch' < (w.inbox ch').length := by simpa [World.buffer] using hne
      simpa [World.take] using Nat.succ_le_of_lt hlt
    · simpa [World.take, hch] using hc ch'
  | @send ctl w hr ch x =>
    intro ch'
    have hle : w.taken ch' ≤ (w.inbox ch').length := hc ch'
    by_cases hch : ch' = ch
    · subst hch
      simp only [World.send, update_self, length_append]
      omega
    · simpa [World.send, hch] using hle
  | _ => exact hc

theorem Config.Reaches.buffer_send
    (h : (Config.initial p s).Reaches c) :
    (c.world.send ch x).buffer ch ≠ [] := by
  have hok :=
    h.induct (fun c => c.world.CursorsOk) (fun _ => Nat.le_refl 0) fun _ _ hc hm => hm.cursorsOk hc
  have hle := hok ch
  simp only [World.send, World.buffer, update_self, ne_eq, drop_eq_nil_iff,
    length_append, length_singleton]
  omega

omit [DecidableEq I.Timer] in
theorem World.choice_first (hb : w.buffer ch ≠ [])
    : w.choice (.receive ch :: gs) ≠ some (.fired t) := by
  simp only [World.choice, World.pick, World.pickFrom]
  split
  · simp
  · rename_i hnil
    exact absurd hnil hb

/-- A buffered signal stays so until it is received, and no timer of a selector that has its channel
as the first case comes before it. -/
def Pending (ch : I.Channel) (w : World I σ) (post : List (Entry I σ)) : Prop :=
  (∃ gs n x, .received gs ch n x ∈ post) ∨
    w.buffer ch ≠ [] ∧ ∀ gs t, .fired (.receive ch :: gs) t ∉ post

omit [DecidableEq I.Channel] [DecidableEq I.Timer] in
theorem Pending.append
    (h : Pending ch w post) (hbuf : w'.buffer ch = w.buffer ch)
    (he : w.buffer ch ≠ [] → ∀ gs t, e ≠ .fired (.receive ch :: gs) t) :
    Pending ch w' (post ++ [e]) := by
  rcases h with ⟨gs, n, x, hx⟩ | ⟨hb, hno⟩
  · exact .inl ⟨gs, n, x, mem_append_left _ hx⟩
  · refine .inr ⟨hbuf ▸ hb, fun gs t hmem => ?_⟩
    rcases mem_append.1 hmem with hmem | hmem
    · exact hno gs t hmem
    · exact he hb gs t (mem_singleton.1 hmem).symm

theorem Config.Move.pending (h : c.Move c') {log} (hlog : c.world.log = log ++ post)
    (hp : Pending ch c.world post) :
    ∃ post', c'.world.log = log ++ post' ∧ Pending ch c'.world post' := by
  have hadd : ∀ {w w' : World I σ} {e : Entry I σ}, w.log = log ++ post → w'.log = w.log ++ [e] →
      w'.log = log ++ (post ++ [e]) := by
    intro w w' e hw hw'
    rw [hw', hw, append_assoc]
  cases h with
  | silent p s | fire | cancel => exact ⟨post, hlog, hp⟩
  | note p e he => exact ⟨_, hadd hlog rfl, hp.append rfl (by rintro - gs t rfl; cases he)⟩
  | schedule | wait | start | settle | abandon => exact ⟨_, hadd hlog rfl, hp.append rfl nofun⟩
  | @take ctl w p gs ch' n x hc hb =>
    refine ⟨_, hadd (e := .received gs ch' n x) hlog rfl, ?_⟩
    by_cases hch : ch = ch'
    · subst hch
      exact .inl ⟨gs, n, x, by simp⟩
    · exact hp.append (by simp [World.take, World.buffer, hch]) nofun
  | expire p gs t hc =>
    refine ⟨_, hadd hlog rfl, hp.append rfl fun hb gs' t' he => ?_⟩
    cases he
    exact World.choice_first hb hc
  | @send ctl w hr ch' x =>
    refine ⟨post, hlog, hp.imp_right (And.imp_left fun hb => ?_)⟩
    by_cases hch : ch = ch'
    · subst hch
      intro hnil
      simp only [World.send, World.buffer, update_self, drop_append,
        append_eq_nil_iff] at hnil
      exact hb hnil.1
    · simpa [World.send, World.buffer, hch] using hb

/-- A buffered signal is received before any timer of a selector that has its channel as the first
case. -/
theorem Config.Reaches.pending (h : c.Reaches c')
    (hb : c.world.buffer ch ≠ [])
    (hlog : c'.world.log = c.world.log ++ post) : Pending ch c'.world post := by
  have hinv : ∃ post', c'.world.log = c.world.log ++ post' ∧ Pending ch c'.world post' := by
    refine h.induct (fun c' => ∃ post', c'.world.log = c.world.log ++ post' ∧
      Pending ch c'.world post') ⟨[], by simp, .inr ⟨hb, by simp⟩⟩ ?_
    rintro c₁ c₂ ⟨post₁, hlog₁, hp₁⟩ hm
    exact hm.pending hlog₁ hp₁
  obtain ⟨post', hlog', hp'⟩ := hinv
  rwa [append_cancel_left (hlog.symm.trans hlog')]

end Durable
