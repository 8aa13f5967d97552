import Mathlib.Data.List.Basic
import Mathlib.Logic.Relation

/-!
# Questions and answers

`ask_user` writes a question and polls for the file `response.txt`; the gateway's `SendInput`
writes that file.  Their system calls interleave: `os.WriteFile` truncates the file and writes its
data in pieces, and `askUser` looks for the file, reads it and removes it.
-/

namespace Uncworks

open List Option Function

abbrev Bytes := List UInt8

/-- The content after a write at an offset; a gap is filled with zeros. -/
def Bytes.writeAt (content : Bytes) (offset : ℕ) (piece : Bytes) : Bytes :=
  content.take offset ++ replicate (offset - content.length) 0 ++ piece ++
    content.drop (offset + piece.length)

structure Writer where
  data : Bytes
  /-- When the gateway opened the file. -/
  started : ℕ
  written : ℕ
  written_le : written ≤ data.length
  linked : Bool

def Writer.opened (data : Bytes) (started : ℕ) : Writer :=
  { data, started, written := 0, written_le := Nat.zero_le _, linked := true }

def Writer.piece (w : Writer) (k : ℕ) : Bytes :=
  (w.data.drop w.written).take k

def Writer.advance (w : Writer) (k : ℕ) : Writer :=
  { w with
    written := w.written + (w.piece k).length
    written_le := by
      have := w.written_le
      simp only [Writer.piece, length_take, length_drop]
      omega }

structure Answer where
  data : Bytes
  started : ℕ

/-- Where an `ask_user` call stands; `asked` is when it wrote its question. -/
inductive AskUser where
  | fresh
  | polling (asked : ℕ)
  /-- The file was seen. -/
  | found (asked : ℕ)
  /-- The file was read and is to be removed. -/
  | read (asked : ℕ) (text : Bytes)
  | returned (asked : ℕ) (text : Bytes)
  | timedOut
  /-- The call threw, or its agent was stopped. -/
  | gone
  deriving DecidableEq

/-- When a call that still waits for its answer wrote its question. -/
def AskUser.waitingSince? : AskUser → Option ℕ
  | .polling asked => some asked
  | .found asked => some asked
  | _ => none

def AskUser.text? : AskUser → Option (ℕ × Bytes)
  | .read asked text => some (asked, text)
  | .returned asked text => some (asked, text)
  | _ => none

structure Mailbox where
  clock : ℕ := 0
  /-- Whether the gateway has had an agent process. -/
  process : Bool := false
  response : Option Bytes := none
  writers : ℕ → Option Writer := fun _ => none
  handled : List Answer := []
  calls : ℕ → AskUser := fun _ => .fresh

namespace Mailbox

/-- The handles after another writer opened the file: they are the file at the path if it was there
before. -/
def reopened (m : Mailbox) (w : Writer) : Writer :=
  { w with linked := w.linked && m.response.isSome }

inductive Action where
  | startAgent
  | ask (i : ℕ)
  | openResponse (j : ℕ) (data : Bytes)
  | writePiece (j k : ℕ)
  | finishWrite (j : ℕ)
  | failWrite (j : ℕ)
  | existsResponse (i : ℕ)
  | readResponse (i : ℕ)
  | unlinkResponse (i : ℕ) (ok : Bool)
  | timeOut (i : ℕ)
  | stop (i : ℕ)

def setCall (m : Mailbox) (i : ℕ) (a : AskUser) : Mailbox :=
  { m with calls := Function.update m.calls i a }

def act (m : Mailbox) : Action → Option Mailbox
  | .startAgent => some { m with process := true }
  | .ask i => match m.calls i with
    | .fresh => some (m.setCall i (.polling m.clock))
    | _ => none
  | .openResponse j data =>
    -- `SendInput` is refused without an agent process
    if m.process ∧ m.writers j = none then
      some { m with
        response := some []
        writers := Function.update (fun l => (m.writers l).map m.reopened) j
          (some (.opened data m.clock)) }
    else none
  | .writePiece j k => match m.writers j with
    | some w =>
      some { m with
        response := if w.linked then
            m.response.map fun b => b.writeAt w.written (w.piece k)
          else m.response
        writers := Function.update m.writers j (some (w.advance k)) }
    | none => none
  | .finishWrite j => match m.writers j with
    | some w =>
      if w.written = w.data.length then
        some { m with
          writers := Function.update m.writers j none
          handled := m.handled ++ [⟨w.data, w.started⟩] }
      else none
    | none => none
  | .failWrite j => match m.writers j with
    | some _ => some { m with writers := Function.update m.writers j none }
    | none => none
  | .existsResponse i => match m.calls i with
    | .polling asked => if m.response.isSome then some (m.setCall i (.found asked)) else some m
    | _ => none
  | .readResponse i => match m.calls i with
    | .found asked => match m.response with
      | some text => some (m.setCall i (.read asked text))
      -- another call has removed the file: `readFileSync` throws
      | none => some (m.setCall i .gone)
    | _ => none
  | .unlinkResponse i ok => match m.calls i with
    | .read asked text =>
      let m' := m.setCall i (.returned asked text)
      some (if ok then
          { m' with
            response := none
            writers := fun l => (m.writers l).map fun w => { w with linked := false } }
        else m')
    | _ => none
  | .timeOut i => match m.calls i with
    | .polling _ => some (m.setCall i .timedOut)
    | _ => none
  | .stop i => match m.calls i with
    | .returned _ _ => none
    | _ => some (m.setCall i .gone)

def step (m : Mailbox) (a : Action) : Option Mailbox :=
  (m.act a).map fun m' => { m' with clock := m.clock + 1 }

def run (m : Mailbox) : List Action → Option Mailbox
  | [] => some m
  | a :: as => (m.step a).bind fun m' => m'.run as

/-! ## When answers match questions -/

def Quiet (m : Mailbox) : Prop := ∀ j w, m.writers j = some w → w.linked = false

/-- A question is written when no response is there, the file is neither opened nor read while it is
written, and no write is given up half-way. -/
def Allowed (m : Mailbox) : Action → Prop
  | .ask _ => m.response = none
  | .openResponse _ _ => m.Quiet
  | .readResponse _ => m.Quiet
  | .failWrite j => ∀ w, m.writers j = some w → w.linked = false
  | _ => True

def AllowedStep (m m' : Mailbox) : Prop := ∃ a, m.Allowed a ∧ m.step a = some m'

def AskedBefore (m : Mailbox) (n : ℕ) : Prop := ∀ i t, (m.calls i).waitingSince? = some t → t < n

/-- A text is the whole data of an answer that was handled for a question written at time `t`. -/
def Answers (m : Mailbox) (t : ℕ) (text : Bytes) : Prop :=
  ∃ h ∈ m.handled, h.data = text ∧ t < h.started

structure Paired (m : Mailbox) : Prop where
  asked : m.AskedBefore m.clock
  /-- At most one writer is at the file. -/
  single : ∀ j l w v, m.writers j = some w → m.writers l = some v →
    w.linked = true → v.linked = true → j = l
  /-- A writer that is at the file has written it from its start. -/
  writing : ∀ j w, m.writers j = some w → w.linked = true →
    m.response = some (w.data.take w.written) ∧ m.AskedBefore w.started
  /-- A file that nobody writes is a whole answer to every question that waits. -/
  settled : m.Quiet → ∀ text, m.response = some text →
    ∃ h ∈ m.handled, h.data = text ∧ m.AskedBefore h.started
  texts : ∀ i t text, (m.calls i).text? = some (t, text) → m.Answers t text

section

variable {m : Mailbox} {n : ℕ} {a : AskUser} {w : Writer} {j : ℕ} {m' : Mailbox} {i : ℕ}

theorem writeAt_piece (w : Writer) (k : ℕ) :
    Bytes.writeAt (w.data.take w.written) w.written (w.piece k) =
      w.data.take (w.advance k).written := by
  have hlen : (w.data.take w.written).length = w.written := by
    rw [length_take, Nat.min_eq_left w.written_le]
  have hdrop : (w.data.take w.written).drop (w.written + (w.piece k).length) = [] := by
    apply drop_eq_nil_of_le
    omega
  have hpiece : w.piece k = (w.data.drop w.written).take (w.piece k).length := by
    simp [Writer.piece]
  unfold Bytes.writeAt
  rw [hlen, hdrop, take_take, Nat.min_self]
  show _ = w.data.take (w.written + (w.piece k).length)
  rw [take_add, ← hpiece]
  simp

theorem AskedBefore.mono {k} (h : m.AskedBefore n) (hk : n ≤ k) : m.AskedBefore k :=
  fun i t ht => Nat.lt_of_lt_of_le (h i t ht) hk

theorem AskedBefore.setCall (h : m.AskedBefore n)
    (ha : ∀ t, a.waitingSince? = some t → t < n) : (m.setCall i a).AskedBefore n :=
  (forall_update_iff m.calls (p := fun _ c => ∀ t, c.waitingSince? = some t → t < n)).2
    ⟨ha, fun l _ => h l⟩

theorem Paired.texts_setCall (h : m.Paired)
    (ha : ∀ t text, a.text? = some (t, text) → m.Answers t text) :
    ∀ l t text, ((m.setCall i a).calls l).text? = some (t, text) → m.Answers t text :=
  (forall_update_iff m.calls
    (p := fun _ c => ∀ t text, c.text? = some (t, text) → m.Answers t text)).2
    ⟨ha, fun l _ => h.texts l⟩

theorem Paired.setCall (h : m.Paired)
    (hw : ∀ t, a.waitingSince? = some t → (m.calls i).waitingSince? = some t)
    (ht : ∀ t text, a.text? = some (t, text) → m.Answers t text) : (m.setCall i a).Paired where
  asked := h.asked.setCall fun t ha => h.asked i t (hw t ha)
  single := h.single
  writing j w hj hl := by
    obtain ⟨hr, hb⟩ := h.writing j w hj hl
    exact ⟨hr, hb.setCall fun t ha => hb i t (hw t ha)⟩
  settled hq text hr := by
    obtain ⟨a, hmem, hd, hb⟩ := h.settled hq text hr
    exact ⟨a, hmem, hd, hb.setCall fun t ha => hb i t (hw t ha)⟩
  texts := h.texts_setCall ht

theorem Paired.close (h : m.Paired) (hw : a.waitingSince? = none)
    (ht : a.text? = none) : (m.setCall i a).Paired :=
  h.setCall (fun _ hs => by rw [hw] at hs; cases hs) fun _ _ hx => by rw [ht] at hx; cases hx

theorem Paired.tick (h : m.Paired) : Paired { m with clock := m.clock + 1 } where
  asked := AskedBefore.mono (m := m) h.asked (Nat.le_succ _)
  single := h.single
  writing := h.writing
  settled := h.settled
  texts := h.texts

theorem Paired.ask (h : m.Paired) (hr : m.response = none) (i : ℕ) :
    Paired { m.setCall i (.polling m.clock) with clock := m.clock + 1 } where
  asked := by
    apply AskedBefore.setCall (h.asked.mono (Nat.le_succ _))
    intro t ht
    cases ht
    exact Nat.lt_succ_self _
  single := h.single
  writing j w hj hl := by
    have hsome := (h.writing j w hj hl).1
    rw [hr] at hsome
    cases hsome
  settled _ text hsome := by
    have hsome : m.response = some text := hsome
    rw [hr] at hsome
    cases hsome
  texts := h.texts_setCall fun _ _ ha => nomatch ha

theorem writer_of_update {f l x} {v : Writer} (h : Function.update f j x l = some v) :
    (l = j ∧ x = some v) ∨ (l ≠ j ∧ f l = some v) := by
  by_cases hl : l = j
  · subst hl
    rw [update_self] at h
    exact .inl ⟨rfl, h⟩
  · rw [update_of_ne hl] at h
    exact .inr ⟨hl, h⟩

theorem quiet_of_update {x} (hj : m.writers j = some w) (hw : w.linked = false)
    (hq : ∀ l v, Function.update m.writers j x l = some v → v.linked = false) : m.Quiet := by
  intro l v hv
  by_cases hl : l = j
  · subst hl
    rw [hj] at hv
    cases hv
    exact hw
  · apply hq l v
    rw [update_of_ne hl]
    exact hv

theorem Paired.openResponse (h : m.Paired) (hq : m.Quiet) (j : ℕ) (data : Bytes) :
    Paired { m with
      clock := m.clock + 1
      response := some []
      writers := Function.update (fun l => (m.writers l).map m.reopened) j
        (some (.opened data m.clock)) } := by
  -- only the new writer is at the file
  have hold : ∀ l, l ≠ j → ∀ w, (m.writers l).map m.reopened = some w → w.linked = false := by
    intro l _ w hw
    obtain ⟨v, hv, rfl⟩ := map_eq_some_iff.1 hw
    simp [reopened, hq l v hv]
  have hlinked : ∀ l w, Function.update (fun l => (m.writers l).map m.reopened) j
      (some (.opened data m.clock)) l = some w → w.linked = true →
      l = j ∧ w = .opened data m.clock := by
    intro l w hw hl
    rcases writer_of_update hw with ⟨hj, hnew⟩ | ⟨hj, hold'⟩
    · exact ⟨hj, (some.inj hnew).symm⟩
    · rw [hold l hj w hold'] at hl
      cases hl
  exact {
    asked := h.asked.mono (Nat.le_succ _)
    single := fun l k w v hl hk hw hv =>
      (hlinked l w hl hw).1.trans (hlinked k v hk hv).1.symm
    writing := by
      intro l w hl hw
      obtain ⟨-, rfl⟩ := hlinked l w hl hw
      exact ⟨rfl, h.asked⟩
    settled := by
      intro hquiet
      have hnew := hquiet j (.opened data m.clock) (by simp)
      cases hnew
    texts := h.texts }

theorem Paired.writePiece (h : m.Paired) (hj : m.writers j = some w) (k : ℕ) :
    Paired { m with
      clock := m.clock + 1
      response := if w.linked then
          m.response.map fun b => b.writeAt w.written (w.piece k)
        else m.response
      writers := Function.update m.writers j (some (w.advance k)) } := by
  -- a writer after the piece is the one before it, as much at the file as before
  have hback : ∀ l v, Function.update m.writers j (some (w.advance k)) l = some v →
      ∃ v₀, m.writers l = some v₀ ∧ v.linked = v₀.linked := by
    intro l v hv
    rcases writer_of_update hv with ⟨rfl, hnew⟩ | ⟨-, hold⟩
    · cases hnew
      exact ⟨w, hj, rfl⟩
    · exact ⟨v, hold, rfl⟩
  exact {
    asked := h.asked.mono (Nat.le_succ _)
    single := by
      intro l i v u hl hi hv hu
      obtain ⟨v₀, hv₀, hve⟩ := hback l v hl
      obtain ⟨u₀, hu₀, hue⟩ := hback i u hi
      exact h.single l i v₀ u₀ hv₀ hu₀ (hve ▸ hv) (hue ▸ hu)
    writing := by
      intro l v hl hv
      rcases writer_of_update hl with ⟨rfl, hnew⟩ | ⟨hlj, hold⟩
      · cases hnew
        have hv : w.linked = true := hv
        obtain ⟨hr, hb⟩ := h.writing l w hj hv
        refine ⟨?_, hb⟩
        rw [if_pos hv, hr, map_some, writeAt_piece]
        rfl
      · -- the other writer is at the file, so this one is not
        obtain ⟨hr, hb⟩ := h.writing l v hold hv
        have hw : ¬ w.linked = true := fun hw => hlj (h.single l j v w hold hj hv hw)
        refine ⟨?_, hb⟩
        rw [if_neg hw]
        exact hr
    settled := by
      intro hq text hr
      have hw : w.linked = false := hq j (w.advance k) (by simp)
      simp only [hw, Bool.false_eq_true, if_false] at hr
      exact h.settled (quiet_of_update hj hw hq) text hr
    texts := h.texts }

theorem writer_of_update_none {l v} (h : Function.update m.writers j none l = some v) :
    m.writers l = some v := by
  rcases writer_of_update h with ⟨-, hv⟩ | ⟨-, hv⟩
  · cases hv
  · exact hv

theorem Paired.finishWrite (h : m.Paired) (hj : m.writers j = some w)
    (hlen : w.written = w.data.length) :
    Paired { m with
      clock := m.clock + 1
      writers := Function.update m.writers j none
      handled := m.handled ++ [⟨w.data, w.started⟩] } where
  asked := h.asked.mono (Nat.le_succ _)
  single l k v u hl hk := h.single l k v u (writer_of_update_none hl) (writer_of_update_none hk)
  writing l v hl := h.writing l v (writer_of_update_none hl)
  settled hq text hr := by
    by_cases hw : w.linked = true
    · obtain ⟨hdata, hb⟩ := h.writing j w hj hw
      refine ⟨⟨w.data, w.started⟩, by simp, ?_, hb⟩
      rw [show m.response = some text from hr, hlen, take_length] at hdata
      exact (some.inj hdata).symm
    · have hw : w.linked = false := by simpa using hw
      obtain ⟨a, ha, hd, hb⟩ := h.settled (quiet_of_update hj hw hq) text hr
      exact ⟨a, mem_append_left _ ha, hd, hb⟩
  texts i t text hx := by
    obtain ⟨a, ha, hd, hb⟩ := h.texts i t text hx
    exact ⟨a, mem_append_left _ ha, hd, hb⟩

theorem Paired.failWrite (h : m.Paired) (hj : m.writers j = some w)
    (hw : w.linked = false) :
    Paired { m with clock := m.clock + 1, writers := Function.update m.writers j none } where
  asked := h.asked.mono (Nat.le_succ _)
  single l k v u hl hk := h.single l k v u (writer_of_update_none hl) (writer_of_update_none hk)
  writing l v hl := h.writing l v (writer_of_update_none hl)
  settled hq := h.settled (quiet_of_update hj hw hq)
  texts := h.texts

theorem Paired.unlink (h : m.Paired) :
    Paired { m with
      response := none
      writers := fun l => (m.writers l).map fun w => { w with linked := false } } := by
  have hlinked : ∀ l v, (m.writers l).map (fun w => { w with linked := false }) = some v →
      v.linked = false := by
    intro l v hv
    obtain ⟨w, -, rfl⟩ := map_eq_some_iff.1 hv
    rfl
  exact {
    asked := h.asked
    single := fun l k v u hl _ hv _ => by simp [hlinked l v hl] at hv
    writing := fun l v hl hv => by simp [hlinked l v hl] at hv
    settled := fun _ _ hr => nomatch hr
    texts := h.texts }

theorem Paired.step {a} (h : m.Paired) (ha : m.Allowed a) (hs : m.step a = some m') :
    m'.Paired := by
  obtain ⟨m₁, hact, rfl⟩ := map_eq_some_iff.1 hs
  cases a with
  | startAgent =>
    cases hact
    exact ⟨h.tick.asked, h.single, h.writing, h.settled, h.texts⟩
  | ask i =>
    rw [act] at hact
    split at hact
    · cases hact
      exact h.ask ha i
    · cases hact
  | openResponse j data =>
    rw [act] at hact
    split at hact
    · cases hact
      exact h.openResponse ha j data
    · cases hact
  | writePiece j k =>
    rw [act] at hact
    split at hact
    · rename_i w hj
      cases hact
      exact h.writePiece hj k
    · cases hact
  | finishWrite j =>
    rw [act] at hact
    split at hact
    · rename_i w hj
      split at hact
      · rename_i hlen
        cases hact
        exact h.finishWrite hj hlen
      · cases hact
    · cases hact
  | failWrite j =>
    rw [act] at hact
    split at hact
    · rename_i w hj
      cases hact
      exact h.failWrite hj (ha w hj)
    · cases hact
  | existsResponse i =>
    rw [act] at hact
    split at hact
    · rename_i t hi
      split at hact
      · cases hact
        have hw : (m.calls i).waitingSince? = some t := by rw [hi]; rfl
        exact (h.setCall (fun s hs => hs ▸ hw) fun _ _ hx => by cases hx).tick
      · cases hact
        exact h.tick
    · cases hact
  | readResponse i =>
    rw [act] at hact
    split at hact
    · rename_i t hi
      split at hact
      · rename_i text hr
        cases hact
        -- nobody writes the file, so it is a whole answer to this question
        obtain ⟨x, hx, hd, hb⟩ := h.settled ha text hr
        have ht := hb i t (by rw [hi]; rfl)
        refine (h.setCall (fun _ hs => by cases hs) fun s b hs => ?_).tick
        cases hs
        exact ⟨x, hx, hd, ht⟩
      · cases hact
        exact (h.close rfl rfl).tick
    · cases hact
  | unlinkResponse i ok =>
    rw [act] at hact
    split at hact
    · rename_i t text hi
      cases hact
      have htext : ∀ s b, (AskUser.returned t text).text? = some (s, b) → m.Answers s b :=
        fun s b hs => h.texts i s b (by rw [hi]; exact hs)
      have hset := h.setCall (i := i) (fun _ hs => by cases hs) htext
      cases ok with
      | true => exact hset.unlink.tick
      | false => exact hset.tick
    · cases hact
  | timeOut i =>
    rw [act] at hact
    split at hact
    · cases hact
      exact (h.close rfl rfl).tick
    · cases hact
  | stop i =>
    rw [act] at hact
    split at hact
    · cases hact
    · cases hact
      exact (h.close rfl rfl).tick

theorem paired_empty : Paired {} where
  asked _ _ ht := nomatch ht
  single _ _ _ _ hj := nomatch hj
  writing _ _ hj := nomatch hj
  settled _ _ hr := nomatch hr
  texts _ _ _ hx := nomatch hx

theorem Paired.reaches (h : m.Paired)
    (hr : Relation.ReflTransGen AllowedStep m m') : m'.Paired := by
  induction hr with
  | refl => exact h
  | tail _ hstep ih =>
    obtain ⟨a, ha, hs⟩ := hstep
    exact ih.step ha hs

def AllAllowed (m : Mailbox) : List Action → Prop
  | [] => True
  | a :: as => m.Allowed a ∧ match m.step a with
    | some m' => m'.AllAllowed as
    | none => True

theorem reaches_run {as} (ha : m.AllAllowed as) (hr : m.run as = some m') :
    Relation.ReflTransGen AllowedStep m m' := by
  induction as generalizing m with
  | nil =>
    cases hr
    exact .refl
  | cons a as ih =>
    obtain ⟨m₁, hs, hr⟩ := bind_eq_some_iff.1 hr
    have hrest := ha.2
    rw [hs] at hrest
    exact .head ⟨a, ha.1, hs⟩ (ih hrest hr)

end

end Mailbox

open Mailbox

/-- In every run of allowed steps the text a call returns is the whole data of a `SendInput` that was
handled after the call wrote its question. -/
theorem answer_follows_question {m : Mailbox} (h : Relation.ReflTransGen AllowedStep {} m)
    {i asked : ℕ} {text : Bytes} (hi : m.calls i = .returned asked text) :
    ∃ a ∈ m.handled, a.data = text ∧ asked < a.started :=
  (paired_empty.reaches h).texts i asked text (by rw [hi]; rfl)

def askedThenAnswered : List Action :=
  [.startAgent, .ask 0, .existsResponse 0, .openResponse 0 [121, 101, 115], .writePiece 0 2,
    .writePiece 0 2, .finishWrite 0, .existsResponse 0, .readResponse 0, .unlinkResponse 0 true]

theorem answer_follows_question_askedThenAnswered :
    ∃ m : Mailbox, run {} askedThenAnswered = some m ∧
      m.calls 0 = .returned 1 [121, 101, 115] ∧
      ∃ a ∈ m.handled, a.data = [121, 101, 115] ∧ 1 < a.started := by
  have hallowed : AllAllowed {} askedThenAnswered := by
    refine And.intro trivial (And.intro rfl (And.intro trivial (And.intro ?_ (And.intro trivial
      (And.intro trivial (And.intro trivial (And.intro trivial (And.intro ?_
      (And.intro trivial trivial)))))))))
    · intro j w hw
      cases hw
    · intro j w hw
      cases j <;> cases hw
  obtain ⟨m, hm⟩ : ∃ m, run {} askedThenAnswered = some m := ⟨_, rfl⟩
  have hret : m.calls 0 = .returned 1 [121, 101, 115] := by
    have : (run {} askedThenAnswered).map (·.calls 0) = some (.returned 1 [121, 101, 115]) := rfl
    rw [hm] at this
    exact some.inj this
  exact ⟨m, hm, hret, answer_follows_question (reaches_run hallowed hm) hret⟩

/-- Nothing is asked when the answer comes: the next question gets it. -/
def answeredThenAsked : List Action :=
  [.startAgent, .openResponse 0 [121, 101, 115], .writePiece 0 3, .finishWrite 0, .ask 0,
    .existsResponse 0, .readResponse 0, .unlinkResponse 0 true]

theorem stale_answer_returned :
    ∃ m : Mailbox, run {} answeredThenAsked = some m ∧
      m.calls 0 = .returned 4 [121, 101, 115] ∧
      ∀ a ∈ m.handled, ¬ 4 < a.started := by
  refine ⟨_, rfl, rfl, ?_⟩
  intro a ha
  cases mem_singleton.1 ha
  decide

end Uncworks
