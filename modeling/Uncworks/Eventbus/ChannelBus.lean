import Uncworks.Go.Slice
import Uncworks.Machine.Runs

/-!
# The event bus

`ChannelBus`: `Subscribe` and `Unsubscribe` change the slice of subscribers of a topic under the lock;
`Publish` takes the slice under the lock, and then sends to one subscriber after the other without it.
What it iterates over is the array it shares with the topic, in which `Unsubscribe` moves the
subscribers, and whose channels `Unsubscribe` closes.
-/

namespace Uncworks

open List Function

def subscriberBufferSize : ℕ := 64

structure Subscriber where
  id : ℕ := 0
  ch : ℕ := 0
  deriving DecidableEq

structure EventChannel (α : Type*) where
  buffer : List α := []
  closed : Bool := false

/-- A topic with its arrays; a topic that the map does not have has the nil slice. -/
structure Topic where
  heap : Go.Heap Subscriber := []
  subs : Go.Slice := {}

namespace Topic

def subscribers (t : Topic) : List Subscriber := t.subs.contents t.heap

def add (t : Topic) (sub : Subscriber) (spare : ℕ) : Topic :=
  let r := t.subs.append t.heap sub (replicate spare {})
  { heap := r.1, subs := r.2 }

/-- `append(subs[:i], subs[i+1:]...)`; an empty topic is deleted. -/
def remove (t : Topic) (i : ℕ) : Topic :=
  let r := t.subs.removeAt t.heap i
  { heap := r.1, subs := if r.2.len = 0 then {} else r.2 }

variable {t : Topic} (ht : t.subs.Valid t.heap)
include ht

theorem subscribers_add (sub : Subscriber) (spare : ℕ) :
    (t.add sub spare).subscribers = t.subscribers ++ [sub] :=
  Go.Slice.contents_append ht

theorem valid_add (sub : Subscriber) (spare : ℕ) :
    (t.add sub spare).subs.Valid (t.add sub spare).heap :=
  Go.Slice.valid_append ht

variable {i : ℕ} (hi : i < t.subs.len)
include hi

theorem subscribers_remove : (t.remove i).subscribers = t.subscribers.eraseIdx i := by
  have hlen := Go.Slice.length_eraseIdx_contents ht hi
  unfold remove subscribers
  dsimp only
  split_ifs with hzero
  · rw [eq_nil_of_length_eq_zero (hlen.trans hzero)]
    exact Go.Slice.contents_nil _
  · exact Go.Slice.contents_removeAt ht hi

theorem valid_remove : (t.remove i).subs.Valid (t.remove i).heap := by
  unfold remove
  dsimp only
  split_ifs
  · exact Go.Slice.valid_nil _
  · exact Go.Slice.valid_removeAt ht hi

end Topic

structure Publisher (α : Type*) where
  topic : String
  event : α
  subs : Go.Slice
  /-- The position it has come to. -/
  next : ℕ := 0
  /-- The subscriber it has read and not sent to yet. -/
  loaded : Option Subscriber := none
  /-- The subscribers that have stayed subscribed since the call. -/
  staying : List Subscriber
  /-- Somebody has unsubscribed from the topic since the call. -/
  disturbed : Bool := false

namespace Publisher

variable {α : Type*} (p : Publisher α)

def finished : Bool := p.next = p.subs.len

def busyWith (topic : String) : Bool := p.topic = topic && !p.finished

def unsubscribed (topic : String) (sub : Subscriber) : Publisher α :=
  if p.busyWith topic then { p with staying := p.staying.erase sub, disturbed := true }
  else p

end Publisher

/-- A bus with all channels it has made and all calls of `Publish` so far. -/
structure ChannelBus (α : Type*) where
  topics : String → Topic := fun _ => {}
  channels : List (EventChannel α) := []
  nextID : ℕ := 0
  publishers : List (Publisher α) := []
  /-- A send has gone to a closed channel. -/
  panicked : Bool := false
  /-- Which call of `Publish` has sent to which channel. -/
  delivered : List (ℕ × ℕ) := []
  /-- Which call of `Publish` has found which channel full. -/
  dropped : List (ℕ × ℕ) := []

/-- What can happen: the steps of `Publish`, the other calls, and that a subscriber receives. -/
inductive BusEvent (α : Type*) where
  | publish (topic : String) (event : α)
  | load (k : ℕ)
  | send (k : ℕ)
  | subscribe (topic : String) (spare : ℕ)
  | unsubscribe (topic : String) (id : ℕ)
  | receive (ch : ℕ)

namespace ChannelBus

variable {α : Type*} (b : ChannelBus α)

section

variable (topic : String)

def publish (event : α) : ChannelBus α :=
  { b with
    publishers := b.publishers ++ [
      { topic, event, subs := (b.topics topic).subs, staying := (b.topics topic).subscribers }] }

def offer (k : ℕ) (p : Publisher α) (sub : Subscriber) (c : EventChannel α) : ChannelBus α :=
  if c.closed then { b with panicked := true }
  else if c.buffer.length < subscriberBufferSize then
    { b with
      publishers := b.publishers.set k { p with next := p.next + 1, loaded := none }
      channels := b.channels.set sub.ch { c with buffer := c.buffer ++ [p.event] }
      delivered := b.delivered ++ [(k, sub.ch)] }
  else
    { b with
      publishers := b.publishers.set k { p with next := p.next + 1, loaded := none }
      dropped := b.dropped ++ [(k, sub.ch)] }

theorem offer_of_open (k : ℕ) (p : Publisher α) (sub : Subscriber) {c} (hopen : c.closed = false) :
    (b.offer k p sub c).publishers =
        b.publishers.set k { p with next := p.next + 1, loaded := none } ∧
      (b.offer k p sub c).panicked = b.panicked := by
  rw [offer, if_neg (by rw [hopen]; exact Bool.false_ne_true)]
  split_ifs
  all_goals exact ⟨rfl, rfl⟩

def subscribe (spare : ℕ) : ChannelBus α :=
  { b with
    topics := Function.update b.topics topic
      ((b.topics topic).add ⟨b.nextID, b.channels.length⟩ spare)
    channels := b.channels ++ [{}]
    nextID := b.nextID + 1 }

def find (id : ℕ) : Option (ℕ × Subscriber) :=
  ((b.topics topic).subscribers.findIdx? (·.id = id)).bind fun i =>
    ((b.topics topic).subscribers[i]?).map fun sub => (i, sub)

def drop (i : ℕ) (sub : Subscriber) : ChannelBus α :=
  { b with
    topics := Function.update b.topics topic ((b.topics topic).remove i)
    channels := b.channels.modify sub.ch fun c => { c with closed := true }
    publishers := b.publishers.map (·.unsubscribed topic sub) }

def unsubscribe (id : ℕ) : ChannelBus α :=
  match b.find topic id with
  | none => b
  | some (i, sub) => b.drop topic i sub

end

def step : BusEvent α → Option (ChannelBus α)
  | .publish topic event => some (b.publish topic event)
  | .load k => b.publishers[k]?.bind fun p =>
    if p.loaded.isSome || p.finished then none
    else ((p.subs.contents (b.topics p.topic).heap)[p.next]?).map fun sub =>
      { b with publishers := b.publishers.set k { p with loaded := some sub } }
  | .send k => b.publishers[k]?.bind fun p => p.loaded.bind fun sub =>
    b.channels[sub.ch]?.map fun c => b.offer k p sub c
  | .subscribe topic spare => some (b.subscribe topic spare)
  | .unsubscribe topic id => some (b.unsubscribe topic id)
  | .receive ch => b.channels[ch]?.bind fun c => match c.buffer with
    | [] => none
    | _ :: rest => some { b with channels := b.channels.set ch { c with buffer := rest } }

variable {b} in
theorem getElem?_publish {topic event k p} (h : (b.publish topic event).publishers[k]? = some p) :
    b.publishers[k]? = some p ∨ k = b.publishers.length ∧
      p = { topic, event, subs := (b.topics topic).subs, staying := (b.topics topic).subscribers } := by
  have hlt := (List.getElem?_eq_some_iff.1 h).1
  simp only [publish, List.length_append, List.length_singleton] at hlt
  by_cases hk : k < b.publishers.length
  · exact .inl ((getElem?_append_left hk).symm.trans h)
  · obtain rfl : k = b.publishers.length := by omega
    exact .inr ⟨rfl, (Option.some.inj (getElem?_concat_length.symm.trans h)).symm⟩

/-! ## The invariant -/

/-- A call of `Publish` during which nobody has unsubscribed iterates over the subscribers that were
there at the call, and has sent to or dropped for exactly those it has passed. -/
structure Steady (k : ℕ) (p : Publisher α) : Prop where
  length : p.subs.len = p.staying.length
  nodup : (p.staying.map (·.ch)).Nodup
  counts : ∀ {i : ℕ} {sub : Subscriber}, p.staying[i]? = some sub →
    b.delivered.count (k, sub.ch) + b.dropped.count (k, sub.ch) = if i < p.next then 1 else 0
  loaded : ∀ {sub : Subscriber}, p.loaded = some sub → p.staying[p.next]? = some sub
  le : p.next ≤ p.subs.len
  valid : p.finished = false → p.subs.Valid (b.topics p.topic).heap
  contents : p.finished = false → p.subs.contents (b.topics p.topic).heap = p.staying
  shorter : p.finished = false → p.subs.array = (b.topics p.topic).subs.array →
    p.subs.len ≤ (b.topics p.topic).subs.len
  subscribed : p.finished = false → p.staying ⊆ (b.topics p.topic).subscribers

structure WellFormed : Prop where
  valid : ∀ t, (b.topics t).subs.Valid (b.topics t).heap
  opened : ∀ {t : String} {sub : Subscriber}, sub ∈ (b.topics t).subscribers →
    ∃ c, b.channels[sub.ch]? = some c ∧ c.closed = false
  apart : ∀ {t t' : String} {sub sub' : Subscriber}, sub ∈ (b.topics t).subscribers →
    sub' ∈ (b.topics t').subscribers → sub.ch = sub'.ch → t = t'
  nodup : ∀ t, ((b.topics t).subscribers.map (·.ch)).Nodup
  steady : ∀ {k : ℕ} {p : Publisher α}, b.publishers[k]? = some p → p.disturbed = false →
    b.Steady k p
  known : ∀ x ∈ b.delivered ++ b.dropped, x.1 < b.publishers.length

variable {b} {k : ℕ} {p : Publisher α} {sub : Subscriber} {t topic : String}

namespace Steady

theorem congr {b' : ChannelBus α} (h : b.Steady k p)
    (htopic : p.finished = false → b'.topics p.topic = b.topics p.topic)
    (hcounts : ∀ ch, b'.delivered.count (k, ch) + b'.dropped.count (k, ch) =
      b.delivered.count (k, ch) + b.dropped.count (k, ch)) : b'.Steady k p where
  length := h.length
  nodup := h.nodup
  counts hsub := (hcounts _).trans (h.counts hsub)
  loaded := h.loaded
  le := h.le
  valid hrun := by rw [htopic hrun]; exact h.valid hrun
  contents hrun := by rw [htopic hrun]; exact h.contents hrun
  shorter hrun := by rw [htopic hrun]; exact h.shorter hrun
  subscribed hrun := by rw [htopic hrun]; exact h.subscribed hrun

theorem lt_of_loaded (h : b.Steady k p) (hload : p.loaded = some sub) : p.next < p.subs.len := by
  rw [h.length]
  exact (List.getElem?_eq_some_iff.1 (h.loaded hload)).1

theorem running_of_loaded (h : b.Steady k p) (hload : p.loaded = some sub) : p.finished = false :=
  decide_eq_false (Nat.ne_of_lt (h.lt_of_loaded hload))

theorem mem_of_loaded (h : b.Steady k p) (hload : p.loaded = some sub) :
    sub ∈ (b.topics p.topic).subscribers :=
  h.subscribed (h.running_of_loaded hload) (mem_of_getElem? (h.loaded hload))

theorem eq_of_ch {i j : ℕ} {sub'} (h : b.Steady k p) (hi : p.staying[i]? = some sub)
    (hj : p.staying[j]? = some sub') (hch : sub.ch = sub'.ch) : i = j := by
  obtain ⟨hlt, -⟩ := List.getElem?_eq_some_iff.1 hi
  apply (getElem?_inj (by rwa [length_map]) h.nodup).1
  rw [getElem?_map, getElem?_map, hi, hj]
  exact congrArg some hch

theorem count_of_finished (h : b.Steady k p) (hfin : p.finished = true) (hsub : sub ∈ p.staying) :
    b.delivered.count (k, sub.ch) + b.dropped.count (k, sub.ch) = 1 := by
  obtain ⟨i, hi⟩ := mem_iff_getElem?.1 hsub
  rw [h.counts hi, if_pos]
  rw [of_decide_eq_true hfin, h.length]
  exact (List.getElem?_eq_some_iff.1 hi).1

end Steady

namespace WellFormed

theorem start : ({} : ChannelBus α).WellFormed where
  valid _ := Go.Slice.valid_nil _
  opened h := nomatch h
  apart h := nomatch h
  nodup _ := .nil
  steady h := nomatch h
  known := nofun

theorem lt (hb : b.WellFormed) (hsub : sub ∈ (b.topics t).subscribers) :
    sub.ch < b.channels.length := by
  obtain ⟨c, hc, -⟩ := hb.opened hsub
  exact (List.getElem?_eq_some_iff.1 hc).1

theorem count_eq_zero (hb : b.WellFormed) (ch : ℕ) :
    b.delivered.count (b.publishers.length, ch) +
      b.dropped.count (b.publishers.length, ch) = 0 := by
  rw [← List.count_append, List.count_eq_zero]
  intro hmem
  exact Nat.lt_irrefl _ (hb.known _ hmem)

theorem publish (hb : b.WellFormed) (topic : String) (event : α) :
    (b.publish topic event).WellFormed where
  valid := hb.valid
  opened := hb.opened
  apart := hb.apart
  nodup := hb.nodup
  steady {k p} hp hdist := by
    rcases getElem?_publish hp with hp' | ⟨rfl, rfl⟩
    · exact (hb.steady hp' hdist).congr (fun _ => rfl) fun _ => rfl
    · have hlen := Go.Slice.length_contents (hb.valid topic)
      exact {
        length := hlen.symm
        nodup := hb.nodup topic
        counts := fun {_ sub} _ => hb.count_eq_zero sub.ch
        loaded := nofun
        le := Nat.zero_le _
        valid := fun _ => hb.valid topic
        contents := fun _ => rfl
        shorter := fun _ _ => Nat.le_refl _
        subscribed := fun _ => Subset.refl _ }
  known x hx := by
    have := hb.known x hx
    simp only [ChannelBus.publish, length_append]
    omega

theorem set (hb : b.WellFormed) {p' delivered dropped}
    (hk : k < b.publishers.length)
    (hsteady : p'.disturbed = false → ({ b with delivered, dropped } : ChannelBus α).Steady k p')
    (hcounts : ∀ x : ℕ × ℕ, x.1 ≠ k →
      delivered.count x + dropped.count x = b.delivered.count x + b.dropped.count x)
    (hknown : ∀ x ∈ delivered ++ dropped, x ∈ b.delivered ++ b.dropped ∨ x.1 = k) :
    ({ b with publishers := b.publishers.set k p', delivered, dropped } :
      ChannelBus α).WellFormed where
  valid := hb.valid
  opened := hb.opened
  apart := hb.apart
  nodup := hb.nodup
  steady {j q} hq hdist := by
    by_cases hjk : j = k
    · subst hjk
      obtain rfl := Option.some.inj ((getElem?_set_self hk).symm.trans hq)
      exact (hsteady hdist).congr (fun _ => rfl) fun _ => rfl
    · have hq' := (getElem?_set_ne (Ne.symm hjk)).symm.trans hq
      exact (hb.steady hq' hdist).congr (fun _ => rfl) fun ch => hcounts (j, ch) hjk
  known x hx := by
    simp only [length_set]
    obtain hold | rfl := hknown x hx
    · exact hb.known x hold
    · exact hk

theorem load (hb : b.WellFormed) (hp : b.publishers[k]? = some p) (hrun : p.finished = false)
    (hsub : (p.subs.contents (b.topics p.topic).heap)[p.next]? = some sub) :
    ({ b with publishers := b.publishers.set k { p with loaded := some sub } } :
      ChannelBus α).WellFormed := by
  apply hb.set (List.getElem?_eq_some_iff.1 hp).1 _ (fun _ _ => rfl) (fun x hx => .inl hx)
  intro hdist
  have h := hb.steady hp hdist
  rw [h.contents hrun] at hsub
  exact { h with
    loaded := by
      rintro _ ⟨⟩
      exact hsub }

theorem pass (hb : b.WellFormed) (hp : b.publishers[k]? = some p) (hload : p.loaded = some sub)
    {delivered dropped}
    (hcounts : ∀ x, delivered.count x + dropped.count x =
      b.delivered.count x + b.dropped.count x + if x = (k, sub.ch) then 1 else 0) :
    ({ b with
      publishers := b.publishers.set k { p with next := p.next + 1, loaded := none }
      delivered, dropped } : ChannelBus α).WellFormed := by
  apply hb.set (List.getElem?_eq_some_iff.1 hp).1
  · intro hdist
    have h := hb.steady hp hdist
    have hrun := h.running_of_loaded hload
    exact {
      length := h.length
      nodup := h.nodup
      counts := by
        intro i sub' hi
        have hiff : (k, sub'.ch) = (k, sub.ch) ↔ i = p.next := by
          refine ⟨fun heq => h.eq_of_ch hi (h.loaded hload) (Prod.mk.inj heq).2, ?_⟩
          rintro rfl
          rw [Option.some.inj (hi.symm.trans (h.loaded hload))]
        rw [hcounts, h.counts hi]
        simp only [hiff]
        split_ifs <;> omega
      loaded := nofun
      le := h.lt_of_loaded hload
      valid := fun _ => h.valid hrun
      contents := fun _ => h.contents hrun
      shorter := fun _ => h.shorter hrun
      subscribed := fun _ => h.subscribed hrun }
  · intro x hx
    rw [hcounts, if_neg, Nat.add_zero]
    rintro rfl
    exact hx rfl
  · intro x hx
    by_cases hxk : x = (k, sub.ch)
    · exact .inr (congrArg Prod.fst hxk)
    · left
      have hpos := count_pos_iff.2 hx
      rw [count_append, hcounts, if_neg hxk, ← count_append] at hpos
      exact count_pos_iff.1 hpos

theorem setBuffer (hb : b.WellFormed) {ch c} (hc : b.channels[ch]? = some c) (buffer : List α) :
    ({ b with channels := b.channels.set ch { c with buffer } } : ChannelBus α).WellFormed where
  valid := hb.valid
  opened {t sub} hsub := by
    obtain ⟨c', hc', hopen⟩ := hb.opened hsub
    by_cases hch : ch = sub.ch
    · subst hch
      obtain rfl := Option.some.inj (hc.symm.trans hc')
      exact ⟨_, List.getElem?_set_self (List.getElem?_eq_some_iff.1 hc).1, hopen⟩
    · exact ⟨c', (getElem?_set_ne hch).trans hc', hopen⟩
  apart := hb.apart
  nodup := hb.nodup
  steady hp hdist := (hb.steady hp hdist).congr (fun _ => rfl) fun _ => rfl
  known := hb.known

theorem offer (hb : b.WellFormed) (hp : b.publishers[k]? = some p) (hload : p.loaded = some sub) {c}
    (hc : b.channels[sub.ch]? = some c) : (b.offer k p sub c).WellFormed := by
  unfold ChannelBus.offer
  split_ifs
  · exact { hb with steady := fun hp hdist => (hb.steady hp hdist).congr (fun _ => rfl) fun _ => rfl }
  · refine (hb.setBuffer hc _).pass hp hload fun x => ?_
    rw [count_append, count_singleton]
    simp only [beq_iff_eq, eq_comm (a := x)]
    omega
  · refine hb.pass hp hload fun x => ?_
    rw [count_append, count_singleton]
    simp only [beq_iff_eq, eq_comm (a := x)]
    omega

theorem mem_subscribe (hb : b.WellFormed) (spare : ℕ) :
    sub ∈ ((b.subscribe topic spare).topics t).subscribers ↔
      sub ∈ (b.topics t).subscribers ∨ t = topic ∧ sub = ⟨b.nextID, b.channels.length⟩ := by
  by_cases ht : t = topic
  · subst ht
    simp [ChannelBus.subscribe, Topic.subscribers_add (hb.valid t)]
  · simp [ChannelBus.subscribe, ht]

theorem subscribe (hb : b.WellFormed) (topic : String) (spare : ℕ) :
    (b.subscribe topic spare).WellFormed where
  valid := (forall_update_iff _ fun _ (t : Topic) => t.subs.Valid t.heap).2
    ⟨Topic.valid_add (hb.valid topic) _ _, fun t _ => hb.valid t⟩
  opened {t sub} hsub := by
    obtain hold | ⟨-, rfl⟩ := (hb.mem_subscribe spare).1 hsub
    · obtain ⟨c, hc, hopen⟩ := hb.opened hold
      exact ⟨c, (getElem?_append_left (hb.lt hold)).trans hc, hopen⟩
    · exact ⟨_, getElem?_concat_length, rfl⟩
  apart {t t' sub sub'} hsub hsub' hch := by
    obtain hold | ⟨ht, rfl⟩ := (hb.mem_subscribe spare).1 hsub
    · obtain hold' | ⟨-, rfl⟩ := (hb.mem_subscribe spare).1 hsub'
      · exact hb.apart hold hold' hch
      · exact absurd hch (Nat.ne_of_lt (hb.lt hold))
    · obtain hold' | ⟨ht', -⟩ := (hb.mem_subscribe spare).1 hsub'
      · exact absurd hch (Nat.ne_of_gt (hb.lt hold'))
      · exact ht.trans ht'.symm
  nodup := by
    refine (forall_update_iff _ fun _ (t : Topic) => (t.subscribers.map (·.ch)).Nodup).2
      ⟨?_, fun t _ => hb.nodup t⟩
    rw [Topic.subscribers_add (hb.valid topic), map_append, map_singleton]
    refine (hb.nodup topic).append (nodup_singleton _) ?_
    rw [disjoint_singleton]
    intro hmem
    obtain ⟨sub, hsub, hch⟩ := mem_map.1 hmem
    exact absurd hch (Nat.ne_of_lt (hb.lt hsub))
  steady {k p} hp hdist := by
    have h := hb.steady hp hdist
    by_cases ht : p.topic = topic
    · subst ht
      exact { h with
        valid := fun hrun => by
          simp only [ChannelBus.subscribe, update_self]
          exact Go.Slice.valid_append_of_le (h.valid hrun) (hb.valid _)
        contents := fun hrun => by
          simp only [ChannelBus.subscribe, update_self]
          rw [← h.contents hrun]
          exact Go.Slice.contents_append_of_le (h.valid hrun) (hb.valid _) (h.shorter hrun)
        shorter := fun hrun => by
          simp only [ChannelBus.subscribe, update_self]
          exact Go.Slice.append_le (h.valid hrun) (h.shorter hrun)
        subscribed := fun hrun sub hsub =>
          (hb.mem_subscribe spare).2 (.inl (h.subscribed hrun hsub)) }
    · exact h.congr (fun _ => update_of_ne ht _ _) fun _ => rfl
  known := hb.known

section Drop

variable (hb : b.WellFormed) {i : ℕ} (hi : (b.topics topic).subscribers[i]? = some sub)
include hb hi

theorem lt_len : i < (b.topics topic).subs.len := by
  obtain ⟨hlt, -⟩ := List.getElem?_eq_some_iff.1 hi
  exact Nat.lt_of_lt_of_eq hlt (Go.Slice.length_contents (hb.valid topic))

theorem mem_drop {sub'} (hsub' : sub' ∈ ((b.drop topic i sub).topics t).subscribers) :
    sub' ∈ (b.topics t).subscribers ∧ sub'.ch ≠ sub.ch := by
  by_cases ht : t = topic
  · subst ht
    simp only [ChannelBus.drop, update_self] at hsub'
    rw [Topic.subscribers_remove (hb.valid t) (hb.lt_len hi), mem_eraseIdx_iff_getElem?] at hsub'
    obtain ⟨j, hne, hj⟩ := hsub'
    refine ⟨mem_of_getElem? hj, fun hch => hne ?_⟩
    have hlt := (List.getElem?_eq_some_iff.1 hj).1
    apply (getElem?_inj (by rwa [length_map]) (hb.nodup t)).1
    rw [getElem?_map, getElem?_map, hi, hj]
    exact congrArg some hch
  · simp only [ChannelBus.drop, update_of_ne ht] at hsub'
    exact ⟨hsub', fun hch => ht (hb.apart hsub' (mem_of_getElem? hi) hch)⟩

theorem mem_drop_of_ne {sub'} (hsub' : sub' ∈ (b.topics t).subscribers) (hne : sub' ≠ sub) :
    sub' ∈ ((b.drop topic i sub).topics t).subscribers := by
  by_cases ht : t = topic
  · subst ht
    simp only [ChannelBus.drop, update_self]
    rw [Topic.subscribers_remove (hb.valid t) (hb.lt_len hi), mem_eraseIdx_iff_getElem?]
    obtain ⟨j, hj⟩ := mem_iff_getElem?.1 hsub'
    refine ⟨j, ?_, hj⟩
    rintro rfl
    exact hne (Option.some.inj (hj.symm.trans hi))
  · simp only [ChannelBus.drop, update_of_ne ht]
    exact hsub'

theorem drop : (b.drop topic i sub).WellFormed where
  valid := (forall_update_iff _ fun _ (t : Topic) => t.subs.Valid t.heap).2
    ⟨Topic.valid_remove (hb.valid topic) (hb.lt_len hi), fun t _ => hb.valid t⟩
  opened {t sub'} hsub' := by
    obtain ⟨hold, hne⟩ := hb.mem_drop hi hsub'
    obtain ⟨c, hc, hopen⟩ := hb.opened hold
    exact ⟨c, (getElem?_modify_ne _ _ hne.symm).trans hc, hopen⟩
  apart hsub hsub' hch := hb.apart (hb.mem_drop hi hsub).1 (hb.mem_drop hi hsub').1 hch
  nodup := by
    refine (forall_update_iff _ fun _ (t : Topic) => (t.subscribers.map (·.ch)).Nodup).2
      ⟨?_, fun t _ => hb.nodup t⟩
    rw [Topic.subscribers_remove (hb.valid topic) (hb.lt_len hi)]
    exact (hb.nodup topic).sublist ((eraseIdx_sublist _ _).map _)
  steady {k p'} hp' hdist := by
    simp only [ChannelBus.drop, getElem?_map, Option.map_eq_some_iff] at hp'
    obtain ⟨p, hp, rfl⟩ := hp'
    by_cases hon : p.busyWith topic
    · rw [Publisher.unsubscribed, if_pos hon] at hdist
      cases hdist
    · rw [Publisher.unsubscribed, if_neg hon] at hdist ⊢
      refine (hb.steady hp hdist).congr (fun hrun => ?_) fun _ => rfl
      apply update_of_ne
      rintro rfl
      simp [Publisher.busyWith, hrun] at hon
  known x hx := by
    simp only [ChannelBus.drop, length_map]
    exact hb.known x hx

end Drop

end WellFormed

theorem find_spec {id i} (h : b.find topic id = some (i, sub)) :
    (b.topics topic).subscribers[i]? = some sub ∧ sub.id = id := by
  obtain ⟨j, hj, h⟩ := Option.bind_eq_some_iff.1 h
  obtain ⟨sub', hsub', heq⟩ := Option.map_eq_some_iff.1 h
  cases heq
  obtain ⟨hlt, hid, -⟩ := findIdx?_eq_some_iff_getElem.1 hj
  rw [getElem?_eq_getElem hlt] at hsub'
  cases hsub'
  exact ⟨getElem?_eq_getElem hlt, of_decide_eq_true hid⟩

/-! ## What a step does -/

inductive Effect (b : ChannelBus α) : BusEvent α → ChannelBus α → Prop where
  | publish (topic : String) (event : α) : Effect b (.publish topic event) (b.publish topic event)
  | load {k : ℕ} {p : Publisher α} {sub : Subscriber} (hp : b.publishers[k]? = some p)
      (hrun : p.finished = false)
      (hsub : (p.subs.contents (b.topics p.topic).heap)[p.next]? = some sub) :
      Effect b (.load k) { b with publishers := b.publishers.set k { p with loaded := some sub } }
  | send {k : ℕ} {p : Publisher α} {sub : Subscriber} {c : EventChannel α}
      (hp : b.publishers[k]? = some p) (hload : p.loaded = some sub)
      (hc : b.channels[sub.ch]? = some c) : Effect b (.send k) (b.offer k p sub c)
  | subscribe (topic : String) (spare : ℕ) :
      Effect b (.subscribe topic spare) (b.subscribe topic spare)
  | absent (topic : String) (id : ℕ) : Effect b (.unsubscribe topic id) b
  | drop {topic : String} {id i : ℕ} {sub : Subscriber} (hfind : b.find topic id = some (i, sub)) :
      Effect b (.unsubscribe topic id) (b.drop topic i sub)
  | receive {ch : ℕ} {c : EventChannel α} {e : α} {rest : List α} (hc : b.channels[ch]? = some c)
      (hbuf : c.buffer = e :: rest) :
      Effect b (.receive ch) { b with channels := b.channels.set ch { c with buffer := rest } }

section Steps

variable {b' : ChannelBus α} {e : BusEvent α}

theorem effect_of_step (h : b.step e = some b') : b.Effect e b' := by
  cases e with
  | publish topic event =>
    cases h
    exact .publish topic event
  | load k =>
    obtain ⟨p, hp, h⟩ := Option.bind_eq_some_iff.1 h
    split at h
    · cases h
    · rename_i hcond
      obtain ⟨sub, hsub, rfl⟩ := Option.map_eq_some_iff.1 h
      simp only [Bool.or_eq_true, not_or, Bool.not_eq_true] at hcond
      exact .load hp hcond.2 hsub
  | send k =>
    obtain ⟨p, hp, h⟩ := Option.bind_eq_some_iff.1 h
    obtain ⟨sub, hsub, h⟩ := Option.bind_eq_some_iff.1 h
    obtain ⟨c, hc, rfl⟩ := Option.map_eq_some_iff.1 h
    exact .send hp hsub hc
  | subscribe topic spare =>
    cases h
    exact .subscribe topic spare
  | unsubscribe topic id =>
    cases h
    unfold unsubscribe
    split
    · exact .absent topic id
    · exact .drop ‹_›
  | receive ch =>
    obtain ⟨c, hc, h⟩ := Option.bind_eq_some_iff.1 h
    split at h <;> cases h
    exact .receive hc ‹_›

theorem WellFormed.step (hb : b.WellFormed) (h : b.step e = some b') : b'.WellFormed := by
  cases effect_of_step h with
  | publish topic event => exact hb.publish topic event
  | load hp hrun hsub => exact hb.load hp hrun hsub
  | send hp hload hc => exact hb.offer hp hload hc
  | subscribe topic spare => exact hb.subscribe topic spare
  | absent => exact hb
  | drop hfind => exact hb.drop (find_spec hfind).1
  | receive hc => exact hb.setBuffer hc _

end Steps

/-! ## Runs -/

/-- Nobody unsubscribes from a topic while an event is published on it. -/
def quiet (b : ChannelBus α) : BusEvent α → Bool
  | .unsubscribe topic id =>
    (b.find topic id).isNone || b.publishers.all fun p => !p.busyWith topic
  | _ => true

structure Sound (b : ChannelBus α) : Prop where
  wellFormed : b.WellFormed
  undisturbed : ∀ p ∈ b.publishers, p.disturbed = false
  panicked : b.panicked = false

namespace Sound

theorem start : ({} : ChannelBus α).Sound := ⟨.start, nofun, rfl⟩

theorem set (hb : b.Sound) {p'} (hp : b.publishers[k]? = some p)
    (hp' : p'.disturbed = p.disturbed) : ∀ q ∈ b.publishers.set k p', q.disturbed = false := by
  intro q hq
  obtain hq | rfl := mem_or_eq_of_mem_set hq
  · exact hb.undisturbed q hq
  · exact hp'.trans (hb.undisturbed p (mem_of_getElem? hp))

theorem offer (hb : b.Sound) (hp : b.publishers[k]? = some p) (hload : p.loaded = some sub) {c}
    (hc : b.channels[sub.ch]? = some c) : (b.offer k p sub c).Sound := by
  have hdist := hb.undisturbed p (mem_of_getElem? hp)
  obtain ⟨c', hc', hopen⟩ :=
    hb.wellFormed.opened ((hb.wellFormed.steady hp hdist).mem_of_loaded hload)
  obtain rfl := Option.some.inj (hc.symm.trans hc')
  obtain ⟨hpub, hpanic⟩ := offer_of_open b k p sub hopen
  refine ⟨hb.wellFormed.offer hp hload hc, ?_, hpanic.trans hb.panicked⟩
  rw [hpub]
  exact hb.set hp rfl

theorem step {b b' : ChannelBus α} {e} (hb : b.Sound) (hquiet : b.quiet e)
    (h : b.step e = some b') : b'.Sound := by
  have hwf := hb.wellFormed.step h
  cases effect_of_step h with
  | publish topic event =>
    refine ⟨hwf, ?_, hb.panicked⟩
    exact forall_mem_append.2 ⟨hb.undisturbed, forall_mem_singleton.2 rfl⟩
  | load hp => exact ⟨hwf, hb.set hp rfl, hb.panicked⟩
  | send hp hload hc => exact hb.offer hp hload hc
  | @drop topic _ _ _ hfind =>
    refine ⟨hwf, ?_, hb.panicked⟩
    simp only [quiet, hfind, Option.isNone_some, Bool.false_or, all_eq_true] at hquiet
    intro p' hp'
    obtain ⟨p, hp, rfl⟩ := mem_map.1 hp'
    have hnot : ¬ p.busyWith topic = true := by simpa using hquiet p hp
    rw [Publisher.unsubscribed, if_neg hnot]
    exact hb.undisturbed p hp
  | _ => exact ⟨hwf, hb.undisturbed, hb.panicked⟩

end Sound

/-- If nobody unsubscribes from a topic while an event is published on it, no send goes to a closed
channel, and every subscriber that stays during a `Publish` that does not find its buffer full
receives the event exactly once. -/
theorem publish_exactly_once {b : ChannelBus α} (h : Machine.Reaches step quiet {} b) :
    b.panicked = false ∧ ∀ k p, b.publishers[k]? = some p → p.finished = true →
      ∀ sub ∈ p.staying, (k, sub.ch) ∉ b.dropped → b.delivered.count (k, sub.ch) = 1 := by
  have hb : b.Sound := h.keeps .start Sound.step
  refine ⟨hb.panicked, fun k p hp hfin sub hsub hdrop => ?_⟩
  have hsteady := hb.wellFormed.steady hp (hb.undisturbed p (List.mem_of_getElem? hp))
  have hcount := hsteady.count_of_finished hfin hsub
  rwa [List.count_eq_zero_of_not_mem hdrop, Nat.add_zero] at hcount

def sampleDelivery : List (BusEvent String) :=
  [.subscribe "run" 0, .subscribe "run" 0, .publish "run" "started", .load 0, .send 0, .load 0, .send 0,
    .unsubscribe "run" 0]

def sampleDelivered : ChannelBus String := (Machine.replay step quiet sampleDelivery {}).getD {}

theorem publish_exactly_once_two : Machine.Reaches step quiet {} sampleDelivered ∧
    sampleDelivered.panicked = false ∧ sampleDelivered.delivered.count (0, 1) = 1 := by
  have hreach : Machine.Reaches step quiet {} sampleDelivered :=
    Machine.reaches_replay sampleDelivery rfl
  obtain ⟨hpanic, honce⟩ := publish_exactly_once hreach
  exact ⟨hreach, hpanic, honce 0 _ rfl rfl ⟨1, 1⟩ (by decide) (by decide)⟩

/-- A subscriber that `Publish` has read unsubscribes before the send: the send goes to a closed
channel. -/
def closedSend : List (BusEvent String) :=
  [.subscribe "run" 0, .publish "run" "started", .load 0, .unsubscribe "run" 0, .send 0]

/-- The first of three subscribers unsubscribes after it was sent to: the others move forward in the
array that `Publish` iterates over, and the last is sent to twice, the other not at all. -/
def movedSend : List (BusEvent String) :=
  [.subscribe "run" 3, .subscribe "run" 0, .subscribe "run" 0, .publish "run" "started", .load 0, .send 0,
    .unsubscribe "run" 0, .load 0, .send 0, .load 0, .send 0]

def closedSent : ChannelBus String := (Machine.replay step Machine.always closedSend {}).getD {}

def movedSent : ChannelBus String := (Machine.replay step Machine.always movedSend {}).getD {}

theorem publish_closed_or_twice :
    (Machine.Reaches step Machine.always {} closedSent ∧ closedSent.panicked = true) ∧
    Machine.Reaches step Machine.always {} movedSent ∧ movedSent.dropped = [] ∧
      ∃ p, movedSent.publishers[0]? = some p ∧ p.finished = true ∧ p.staying = [⟨1, 1⟩, ⟨2, 2⟩] ∧
        movedSent.delivered.count (0, 1) = 0 ∧ movedSent.delivered.count (0, 2) = 2 := by
  refine ⟨⟨Machine.reaches_replay closedSend rfl, rfl⟩, Machine.reaches_replay movedSend rfl, rfl,
    _, rfl, rfl, rfl, ?_, ?_⟩
  · decide
  · decide

end ChannelBus

end Uncworks
