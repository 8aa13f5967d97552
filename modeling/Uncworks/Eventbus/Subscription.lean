import Uncworks.Eventbus.ChannelBus

/-!
# What a subscriber hears

A subscriber waits for events of a kind on its topic.  As long as the sends of such events find room
in its channel and nobody else unsubscribes while one is published, each of them that was published
since it subscribed is still to be sent to it, or waits in its channel, or was received
(`ChannelBus.Hears`).
-/

namespace Uncworks

open List

variable {α : Type*}

def Publisher.announces (p : Publisher α) (topic : String) (wanted : α → Bool) : Bool :=
  p.topic = topic && wanted p.event

namespace ChannelBus

variable (b : ChannelBus α) (topic : String) (wanted : α → Bool) (sub : Subscriber)

def Holds (ch : ℕ) : Prop := ∃ c, b.channels[ch]? = some c ∧ ∃ event ∈ c.buffer, wanted event = true

def hasRoom : Bool := b.channels[sub.ch]?.any fun c => c.buffer.length < subscriberBufferSize

structure Heard (k : ℕ) (p : Publisher α) : Prop where
  undisturbed : p.disturbed = false
  staying : sub ∈ p.staying
  kept : (k, sub.ch) ∉ b.dropped
  waits : (k, sub.ch) ∈ b.delivered → b.Holds wanted sub.ch

structure Hears : Prop where
  subscribed : sub ∈ (b.topics topic).subscribers
  heard : ∀ {k : ℕ} {p : Publisher α}, b.publishers[k]? = some p → p.announces topic wanted →
    b.Heard wanted sub k p

def byOthers : BusEvent α → Bool
  | .unsubscribe _ id => id ≠ sub.id
  | .receive ch => ch ≠ sub.ch
  | _ => true

/-- An event of the kind finds room in the channel of the subscriber, and nobody unsubscribes while
one is published. -/
def considerate : BusEvent α → Bool
  | .send k => b.publishers[k]?.all fun p => p.loaded.all fun s =>
    s.ch ≠ sub.ch || !p.announces topic wanted || b.hasRoom sub
  | .unsubscribe t id => (b.find t id).isNone ||
    b.publishers.all fun p => !(p.busyWith t && p.announces topic wanted)
  | _ => true

variable {b topic wanted sub} {b' : ChannelBus α} {k : ℕ} {p : Publisher α}

theorem Hears.holds_of_finished (h : b.Hears topic wanted sub) (hb : b.WellFormed)
    (hp : b.publishers[k]? = some p) (hann : p.announces topic wanted) (hfin : p.finished) :
    b.Holds wanted sub.ch := by
  have hheard := h.heard hp hann
  have hcount := (hb.steady hp hheard.undisturbed).count_of_finished hfin hheard.staying
  rw [count_eq_zero_of_not_mem hheard.kept] at hcount
  apply hheard.waits
  exact count_pos_iff.1 (by omega)

theorem hears_subscribe (hb : b.WellFormed) (spare : ℕ)
    (hnone : ∀ p ∈ b.publishers, p.announces topic wanted = false) :
    (b.subscribe topic spare).Hears topic wanted ⟨b.nextID, b.channels.length⟩ where
  subscribed := (hb.mem_subscribe spare).2 (.inr ⟨rfl, rfl⟩)
  heard hp hann := by
    rw [hnone _ (mem_of_getElem? hp)] at hann
    cases hann

theorem Holds.set {ch c buffer} (hc : b.channels[ch]? = some c)
    (hkeep : ch = sub.ch → (∃ event ∈ c.buffer, wanted event = true) →
      ∃ event ∈ buffer, wanted event = true)
    (h : b.Holds wanted sub.ch) :
    ({ b with channels := b.channels.set ch { c with buffer } } : ChannelBus α).Holds wanted sub.ch := by
  obtain ⟨c', hc', hwaits⟩ := h
  by_cases hch : ch = sub.ch
  · have hlt := (List.getElem?_eq_some_iff.1 hc).1
    obtain rfl : c = c' := Option.some.inj (hc.symm.trans (hch ▸ hc'))
    refine ⟨{ c with buffer }, ?_, hkeep hch hwaits⟩
    rw [← hch]
    exact getElem?_set_self hlt
  · exact ⟨c', (getElem?_set_ne hch).trans hc', hwaits⟩

namespace Hears

theorem mono (h : b.Hears topic wanted sub) (hsub : sub ∈ (b'.topics topic).subscribers)
    (hstep : ∀ {k : ℕ} {p' : Publisher α}, b'.publishers[k]? = some p' →
      p'.announces topic wanted → ∃ p, b.publishers[k]? = some p ∧ p.announces topic wanted ∧
        (b.Heard wanted sub k p → b'.Heard wanted sub k p')) : b'.Hears topic wanted sub where
  subscribed := hsub
  heard hp' hann := by
    obtain ⟨p, hp, hann', hheard⟩ := hstep hp' hann
    exact hheard (h.heard hp hann')

theorem publish (h : b.Hears topic wanted sub) (hb : b.WellFormed) (t : String) (event : α) :
    (b.publish t event).Hears topic wanted sub where
  subscribed := h.subscribed
  heard {k p} hp hann := by
    rcases getElem?_publish hp with hp' | ⟨rfl, rfl⟩
    · exact { h.heard hp' hann with }
    · -- it takes the subscribers of its topic, and has sent to none of them
      have hzero := hb.count_eq_zero sub.ch
      have htopic : t = topic := by
        simp only [Publisher.announces, Bool.and_eq_true, decide_eq_true_eq] at hann
        exact hann.1
      subst htopic
      exact {
        undisturbed := rfl
        staying := h.subscribed
        kept := count_eq_zero.1 (Nat.eq_zero_of_add_eq_zero_left hzero)
        waits := fun hmem =>
          absurd hmem (count_eq_zero.1 (Nat.eq_zero_of_add_eq_zero_right hzero)) }

theorem set (h : b.Hears topic wanted sub) (hp : b.publishers[k]? = some p) (next : ℕ)
    (loaded : Option Subscriber) {channels delivered dropped}
    (hholds : b.Holds wanted sub.ch → ({ b with channels } : ChannelBus α).Holds wanted sub.ch)
    (hdelivered : ∀ j, (j, sub.ch) ∈ delivered → (j, sub.ch) ∈ b.delivered ∨
      (j = k ∧ (p.announces topic wanted → ({ b with channels } : ChannelBus α).Holds wanted sub.ch)))
    (hdropped : ∀ j, (j, sub.ch) ∈ dropped → (j, sub.ch) ∈ b.dropped ∨
      (j = k ∧ p.announces topic wanted = false)) :
    ({ b with
      publishers := b.publishers.set k { p with next, loaded }
      channels, delivered, dropped } : ChannelBus α).Hears topic wanted sub := by
  refine h.mono h.subscribed fun {j q} hq hann => ?_
  by_cases hj : j = k
  · subst hj
    obtain rfl := Option.some.inj
      ((List.getElem?_set_self (List.getElem?_eq_some_iff.1 hp).1).symm.trans hq)
    refine ⟨p, hp, hann, fun hheard => ⟨hheard.undisturbed, hheard.staying, ?_, ?_⟩⟩
    · intro hmem
      obtain hold | ⟨-, hnot⟩ := hdropped j hmem
      · exact hheard.kept hold
      · exact Bool.false_ne_true (hnot.symm.trans hann)
    · intro hmem
      obtain hold | ⟨-, hnew⟩ := hdelivered j hmem
      · exact hholds (hheard.waits hold)
      · exact hnew hann
  · have hq' := (getElem?_set_ne (Ne.symm hj)).symm.trans hq
    refine ⟨q, hq', hann, fun hheard => ⟨hheard.undisturbed, hheard.staying, ?_, ?_⟩⟩
    · intro hmem
      obtain hold | ⟨rfl, -⟩ := hdropped j hmem
      · exact hheard.kept hold
      · exact hj rfl
    · intro hmem
      obtain hold | ⟨rfl, -⟩ := hdelivered j hmem
      · exact hholds (hheard.waits hold)
      · exact absurd rfl hj

theorem load {s} (h : b.Hears topic wanted sub) (hp : b.publishers[k]? = some p) :
    ({ b with publishers := b.publishers.set k { p with loaded := some s } } :
      ChannelBus α).Hears topic wanted sub :=
  h.set hp _ _ id (fun _ hmem => .inl hmem) fun _ hmem => .inl hmem

theorem offer {s c} (h : b.Hears topic wanted sub) (hp : b.publishers[k]? = some p)
    (hload : p.loaded = some s) (hc : b.channels[s.ch]? = some c)
    (hroom : b.considerate topic wanted sub (.send k)) :
    (b.offer k p s c).Hears topic wanted sub := by
  unfold ChannelBus.offer
  split_ifs with hclosed hspace
  · exact h.mono h.subscribed fun {j q} hq hann => ⟨q, hq, hann, fun hheard => { hheard with }⟩
  · refine h.set hp _ _ (Holds.set hc ?_) (fun j hmem => ?_)
      fun j hmem => .inl hmem
    · rintro - ⟨event, hmem, hwanted⟩
      exact ⟨event, mem_append_left _ hmem, hwanted⟩
    · rw [mem_append, mem_singleton, Prod.mk.injEq] at hmem
      obtain hold | ⟨hj, hch⟩ := hmem
      · exact .inl hold
      · refine .inr ⟨hj, fun hann => ⟨{ c with buffer := c.buffer ++ [p.event] }, ?_, p.event, ?_, ?_⟩⟩
        · rw [hch]
          exact List.getElem?_set_self (List.getElem?_eq_some_iff.1 hc).1
        · exact mem_append_right _ mem_cons_self
        · simp only [Publisher.announces, Bool.and_eq_true] at hann
          exact hann.2
  · refine h.set hp _ _ id (fun j hmem => .inl hmem) fun j hmem => ?_
    rw [mem_append, mem_singleton, Prod.mk.injEq] at hmem
    obtain hold | ⟨hj, hch⟩ := hmem
    · exact .inl hold
    · -- the channel is full, so this is no announcement
      right
      have hfull : b.hasRoom sub = false := by
        rw [hasRoom, hch, hc]
        exact decide_eq_false hspace
      simpa [considerate, hp, hload, hch, hfull, hj] using hroom

theorem subscribe (h : b.Hears topic wanted sub) (hb : b.WellFormed) (t : String) (spare : ℕ) :
    (b.subscribe t spare).Hears topic wanted sub := by
  refine h.mono ((hb.mem_subscribe spare).2 (.inl h.subscribed)) fun {j q} hq hann => ?_
  refine ⟨q, hq, hann, fun hheard => { hheard with waits := fun hmem => ?_ }⟩
  obtain ⟨c, hc, hwaits⟩ := hheard.waits hmem
  exact ⟨c, (List.getElem?_append_left (List.getElem?_eq_some_iff.1 hc).1).trans hc, hwaits⟩

theorem drop {t i id s} (h : b.Hears topic wanted sub) (hb : b.WellFormed)
    (hfind : b.find t id = some (i, s)) (hne : id ≠ sub.id)
    (hquiet : b.considerate topic wanted sub (.unsubscribe t id)) :
    (b.drop t i s).Hears topic wanted sub := by
  obtain ⟨hi, hid⟩ := find_spec hfind
  have hs : s ≠ sub := by
    rintro rfl
    exact hne hid.symm
  refine h.mono (hb.mem_drop_of_ne hi h.subscribed hs.symm) fun {j q'} hq' hann => ?_
  simp only [ChannelBus.drop, getElem?_map, Option.map_eq_some_iff] at hq'
  obtain ⟨q, hq, rfl⟩ := hq'
  have hann' : q.announces topic wanted := by
    unfold Publisher.unsubscribed at hann
    split_ifs at hann
    all_goals exact hann
  have hidle : q.unsubscribed t s = q := by
    have hall : ¬ q.busyWith t = true := by
      simp only [considerate, hfind, Option.isNone_some, Bool.false_or, all_eq_true] at hquiet
      simpa [hann'] using hquiet q (mem_of_getElem? hq)
    rw [Publisher.unsubscribed, if_neg hall]
  rw [hidle]
  refine ⟨q, hq, hann', fun hheard => { hheard with waits := fun hmem => ?_ }⟩
  obtain ⟨c, hc, hwaits⟩ := hheard.waits hmem
  by_cases hch : s.ch = sub.ch
  · refine ⟨{ c with closed := true }, ?_, hwaits⟩
    simp [ChannelBus.drop, hch, hc]
  · exact ⟨c, (getElem?_modify_ne _ _ hch).trans hc, hwaits⟩

theorem receive {ch c event rest} (h : b.Hears topic wanted sub) (hc : b.channels[ch]? = some c)
    (hbuf : c.buffer = event :: rest) (hkeep : ch = sub.ch → wanted event = false) :
    ({ b with channels := b.channels.set ch { c with buffer := rest } } :
      ChannelBus α).Hears topic wanted sub := by
  refine h.mono h.subscribed fun {j q} hq hann => ⟨q, hq, hann, fun hheard =>
    { hheard with waits := fun hmem => (hheard.waits hmem).set hc fun hch hwaits => ?_ }⟩
  rw [hbuf] at hwaits
  obtain ⟨event', hmem', hwanted⟩ := hwaits
  obtain rfl | hrest := mem_cons.1 hmem'
  · rw [hkeep hch] at hwanted
    cases hwanted
  · exact ⟨event', hrest, hwanted⟩

theorem step {e} (h : b.Hears topic wanted sub) (hb : b.WellFormed) (hothers : byOthers sub e)
    (hcond : b.considerate topic wanted sub e) (hstep : b.step e = some b') :
    b'.Hears topic wanted sub := by
  cases effect_of_step hstep with
  | publish t event => exact h.publish hb t event
  | load hp => exact h.load hp
  | send hp hload hc => exact h.offer hp hload hc hcond
  | subscribe t spare => exact h.subscribe hb t spare
  | absent => exact h
  | drop hfind => exact h.drop hb hfind (of_decide_eq_true hothers) hcond
  | receive hc hbuf => exact h.receive hc hbuf fun hch => absurd hch (of_decide_eq_true hothers)

end Hears

end ChannelBus

end Uncworks
