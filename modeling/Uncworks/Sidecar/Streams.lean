import Uncworks.Sidecar.Exits

/-!
# The output streams of an agent

`StreamOutput` reads `g.process`, adds a channel to the outputs of that process and forwards what
arrives, until the channel is closed or its client is gone.  The goroutine that writes the final
state closes the channels of the process it ends with.
-/

namespace Uncworks

open List

structure AgentOutput where
  isStderr : Bool
  data : String
  deriving DecidableEq

inductive StreamPhase where
  /-- It has read `g.process`. -/
  | found
  | waiting
  | leaving
  | done
  deriving DecidableEq

structure OutputStream where
  proc : ℕ
  phase : StreamPhase := .found
  /-- The channel is among the outputs of the process. -/
  attached : Bool := false
  buffer : List AgentOutput := []
  closed : Bool := false
  deriving DecidableEq

namespace OutputStream

def capacity : ℕ := 100

variable (p : ℕ) (line : AgentOutput) (st : OutputStream)

def isOutputOf : Bool := st.attached && st.proc = p

def send : OutputStream :=
  if st.isOutputOf p && st.buffer.length < capacity then { st with buffer := st.buffer ++ [line] }
  else st

def close : OutputStream :=
  if st.isOutputOf p then { st with closed := true, attached := false } else st

def receive : Option OutputStream :=
  match st.buffer with
  | _ :: rest => some { st with buffer := rest }
  | [] => if st.closed then some { st with phase := .leaving } else none

end OutputStream

structure Streaming where
  sup : Supervisor := {}
  streams : List OutputStream := []
  /-- The processes whose final state was written. -/
  finished : List ℕ := []
  panicked : Bool := false

inductive StreamEvent where
  | gateway (e : GatewayEvent)
  /-- `StreamOutput` reads `g.process`. -/
  | streamOutput
  | subscribe (i : ℕ)
  /-- A reader of a process sends a line. -/
  | output (p : ℕ) (line : AgentOutput)
  | receive (i : ℕ)
  /-- The client is gone, or a line cannot be forwarded. -/
  | leave (i : ℕ)
  | detach (i : ℕ)

namespace Streaming

def ending (s : Supervisor) : GatewayEvent → Option ℕ
  | .finish k => match s.waiters[k]? with
    | some (.closing p _) => some p
    | _ => none
  | _ => none

variable (env : GatewayEnv) (s : Streaming)

def broken (p : ℕ) : Bool := s.streams.any fun st => st.isOutputOf p && st.closed

def closeOutputs (p : ℕ) : Streaming :=
  { s with
    streams := s.streams.map (·.close p)
    finished := s.finished ++ [p]
    panicked := s.panicked || s.broken p }

def change (i : ℕ) (phase : StreamPhase) (f : OutputStream → Option OutputStream) :
    Option Streaming :=
  s.streams[i]?.bind fun st =>
    if st.phase = phase then (f st).map fun st' => { s with streams := s.streams.set i st' } else none

def step : StreamEvent → Option Streaming
  | .gateway e => (s.sup.step env e).map fun sup =>
    match ending s.sup e with
    | some p => { s.closeOutputs p with sup := sup }
    | none => { s with sup := sup }
  | .streamOutput =>
    if s.sup.starting.isSome then none
    else s.sup.process.map fun p => { s with streams := s.streams ++ [{ proc := p }] }
  | .subscribe i =>
    s.change i .found fun st => some { st with phase := .waiting, attached := true }
  | .output p line =>
    if p < s.sup.procs.length then
      some { s with
        streams := s.streams.map (·.send p line)
        panicked := s.panicked || s.broken p }
    else none
  | .receive i => s.change i .waiting OutputStream.receive
  | .leave i => s.change i .waiting fun st => some { st with phase := .leaving }
  | .detach i => s.change i .leaving fun st => some { st with phase := .done, attached := false }

/-- The agent of a stream has reached its final state: the final state of one of its processes was
written. -/
def AgentFinished (st : OutputStream) : Prop :=
  ∃ p ∈ s.finished, ∃ proc mine, s.sup.procs[p]? = some proc ∧
    s.sup.procs[st.proc]? = some mine ∧ proc.owner = mine.owner

/-- Once its agent has reached its final state, the channel of a stream is closed, or about to be.
-/
def Released : Prop :=
  ∀ st ∈ s.streams, st.phase = .waiting → s.AgentFinished st →
    st.closed ∨ ∃ (k : ℕ) (err : Option String), s.sup.waiters[k]? = some (.closing st.proc err)

/-! ## Attentive runs -/

/-- The goroutine of an agent is busy with a process, or about to be. -/
def busyWith (sup : Supervisor) (p : ℕ) : Bool :=
  sup.procs[p]?.any fun proc => sup.waiters[proc.owner]?.any fun phase =>
    phase = .entering || phase.proc? = some p

/-- A goroutine begins to wait for the process of its own `StartAgent`; a stream is added while that
goroutine is busy; and no process with a stream is restarted. -/
def attentive : StreamEvent → Bool
  | .gateway (.enter k) => s.sup.entersOwn (.enter k)
  | .gateway (.restart k none) => s.streams.all fun st =>
    st.phase ≠ .waiting || (s.sup.waiters[k]?.bind WaitPhase.proc?) ≠ some st.proc
  | .subscribe i => s.streams[i]?.all fun st => busyWith s.sup st.proc
  | _ => true

end Streaming

/-! ## Channels -/

namespace OutputStream

/-- A channel among the outputs of a process is open, and so is that of a stream that waits, unless
it was closed. -/
structure Sane (st : OutputStream) : Prop where
  opened : st.attached → st.closed = false
  found : st.phase = .found → st.attached = false ∧ st.closed = false
  waiting : st.phase = .waiting → st.closed = false → st.attached

variable {p : ℕ} {line : AgentOutput} {st : OutputStream}

theorem close_fields (p : ℕ) (st : OutputStream) :
    (st.close p).proc = st.proc ∧ (st.close p).phase = st.phase := by
  unfold close
  split <;> exact ⟨rfl, rfl⟩

theorem send_fields (p : ℕ) (line : AgentOutput) (st : OutputStream) :
    (st.send p line).proc = st.proc ∧ (st.send p line).phase = st.phase ∧
      (st.send p line).attached = st.attached ∧ (st.send p line).closed = st.closed := by
  unfold send
  split <;> exact ⟨rfl, rfl, rfl, rfl⟩

theorem Sane.send (h : st.Sane) : (st.send p line).Sane := by
  obtain ⟨-, hphase, hattached, hclosed⟩ := send_fields p line st
  constructor
  · rw [hattached, hclosed]
    exact h.opened
  · rw [hphase, hattached, hclosed]
    exact h.found
  · rw [hphase, hattached, hclosed]
    exact h.waiting

theorem Sane.close (h : st.Sane) : (st.close p).Sane := by
  unfold OutputStream.close
  split_ifs with hout
  · refine ⟨nofun, fun hfound => ?_, nofun⟩
    simp [isOutputOf, (h.found hfound).1] at hout
  · exact h

theorem receive_fields {st'} (h : st.receive = some st') :
    st'.proc = st.proc ∧ st'.attached = st.attached ∧ st'.closed = st.closed ∧
      (st'.phase = st.phase ∨ st'.phase = .leaving) := by
  unfold receive at h
  split at h
  · obtain rfl := Option.some.inj h
    exact ⟨rfl, rfl, rfl, .inl rfl⟩
  · split_ifs at h
    obtain rfl := Option.some.inj h
    exact ⟨rfl, rfl, rfl, .inr rfl⟩

end OutputStream

namespace Streaming

variable {env : GatewayEnv} {s s' : Streaming}

theorem change_eq_some {i phase f} (h : s.change i phase f = some s') :
    ∃ st st', s.streams[i]? = some st ∧ st.phase = phase ∧ f st = some st' ∧
      s' = { s with streams := s.streams.set i st' } := by
  obtain ⟨st, hst, h⟩ := Option.bind_eq_some_iff.1 h
  split_ifs at h with hphase
  obtain ⟨st', hst', h⟩ := Option.map_eq_some_iff.1 h
  exact ⟨st, st', hst, hphase, hst', h.symm⟩

def Sound (s : Streaming) : Prop := (∀ st ∈ s.streams, st.Sane) ∧ s.panicked = false

theorem Sound.broken (hs : s.Sound) (p : ℕ) : s.broken p = false := by
  rw [Streaming.broken, any_eq_false]
  intro st hst hout
  rw [Bool.and_eq_true, OutputStream.isOutputOf, Bool.and_eq_true] at hout
  rw [(hs.1 st hst).opened hout.1.1] at hout
  exact absurd hout.2 nofun

theorem Sound.set (hs : s.Sound) (i : ℕ) {st} (hst : st.Sane) :
    Sound { s with streams := s.streams.set i st } :=
  ⟨fun _ hmem => (mem_or_eq_of_mem_set hmem).elim (hs.1 _) fun heq => heq ▸ hst, hs.2⟩

theorem Sound.step (hs : s.Sound) {e} (h : s.step env e = some s') : s'.Sound := by
  cases e with
  | gateway e =>
    obtain ⟨sup, -, h⟩ := Option.map_eq_some_iff.1 h
    split at h
    · subst h
      refine ⟨fun st hst => ?_, ?_⟩
      · obtain ⟨old, hold, rfl⟩ := mem_map.1 hst
        exact (hs.1 old hold).close
      · simp [closeOutputs, hs.2, hs.broken]
    · subst h
      exact hs
  | streamOutput =>
    simp only [Streaming.step] at h
    split_ifs at h
    obtain ⟨p, -, rfl⟩ := Option.map_eq_some_iff.1 h
    refine ⟨forall_mem_append.2 ⟨hs.1, forall_mem_singleton.2 ?_⟩, hs.2⟩
    exact ⟨nofun, fun _ => ⟨rfl, rfl⟩, nofun⟩
  | subscribe i =>
    obtain ⟨st, st', hst, hphase, hst', rfl⟩ := change_eq_some h
    obtain rfl := Option.some.inj hst'
    have hfound := (hs.1 st (mem_of_getElem? hst)).found hphase
    exact hs.set i ⟨fun _ => hfound.2, nofun, fun _ _ => rfl⟩
  | output p line =>
    simp only [Streaming.step] at h
    split_ifs at h
    obtain rfl := Option.some.inj h
    refine ⟨fun st hst => ?_, ?_⟩
    · obtain ⟨old, hold, rfl⟩ := mem_map.1 hst
      exact (hs.1 old hold).send
    · simp [hs.2, hs.broken]
  | receive i =>
    obtain ⟨st, st', hst, hphase, hst', rfl⟩ := change_eq_some h
    have hsane := hs.1 st (mem_of_getElem? hst)
    obtain ⟨-, hattached, hclosed, hnext⟩ := OutputStream.receive_fields hst'
    refine hs.set i ⟨?_, fun hfound => ?_, fun _ => ?_⟩
    · rw [hattached, hclosed]
      exact hsane.opened
    · rw [hfound, hphase] at hnext
      exact absurd hnext nofun
    · rw [hattached, hclosed]
      exact hsane.waiting hphase
  | leave i =>
    obtain ⟨st, st', hst, hphase, hst', rfl⟩ := change_eq_some h
    obtain rfl := Option.some.inj hst'
    exact hs.set i ⟨(hs.1 st (mem_of_getElem? hst)).opened, nofun, nofun⟩
  | detach i =>
    obtain ⟨st, st', hst, hphase, hst', rfl⟩ := change_eq_some h
    obtain rfl := Option.some.inj hst'
    exact hs.set i ⟨nofun, nofun, nofun⟩

end Streaming

/-! ## Goroutines -/

namespace Supervisor

variable {env : GatewayEnv} {s s' : Supervisor} {e : GatewayEvent} {k : ℕ} {phase : WaitPhase}

inductive Progress (s : Supervisor) (e : GatewayEvent) (k : ℕ) (phase phase' : WaitPhase) : Prop
  | same : phase' = phase → Progress s e k phase phase'
  | ended : phase' = .done → Progress s e k phase phase'
  | kept (p : ℕ) : phase.proc? = some p → phase'.proc? = some p → Progress s e k phase phase'
  | entered (p : ℕ) : e = .enter k → phase = .entering → s.process = some p →
    phase'.proc? = some p → Progress s e k phase phase'
  | restarted (p : ℕ) : e = .restart k none → phase.proc? = some p → phase'.proc?.isSome →
    Progress s e k phase phase'

theorem progress_set {k₀ phase₀ phase₁} (hk₀ : s.waiters[k₀]? = some phase₀)
    (hpro : Progress s e k₀ phase₀ phase₁) (hk : s.waiters[k]? = some phase) :
    ∃ phase', (s.waiters.set k₀ phase₁)[k]? = some phase' ∧ Progress s e k phase phase' := by
  by_cases heq : k₀ = k
  · subst heq
    cases hk₀.symm.trans hk
    exact ⟨_, List.getElem?_set_self (List.getElem?_eq_some_iff.1 hk).1, hpro⟩
  · exact ⟨phase, by rw [getElem?_set_ne heq, hk], .same rfl⟩

theorem step_progress (h : s.step env e = some s') (hk : s.waiters[k]? = some phase) :
    ∃ phase', s'.waiters[k]? = some phase' ∧ Progress s e k phase phase' := by
  cases effect_of_step h with
  | launch =>
    exact ⟨phase, (List.getElem?_append_left (List.getElem?_eq_some_iff.1 hk).1).trans hk, .same rfl⟩
  | enter _ hk₀ =>
    refine progress_set hk₀ ?_ hk
    cases hprocess : s.process with
    | none => exact .ended rfl
    | some p => exact .entered p rfl rfl hprocess rfl
  | line _ l => cases l <;> exact ⟨phase, hk, .same rfl⟩
  | @waited _ stage q _ _ hk₀ =>
    rw [reap, persist_waiters]
    exact progress_set hk₀ (.kept q rfl (afterWait_proc? env stage q _ _)) hk
  | @respawn _ phase₀ hk₀ hr =>
    obtain ⟨q, hq⟩ : ∃ q, phase₀.proc? = some q := by
      cases phase₀ <;> first | exact ⟨_, rfl⟩ | cases hr
    exact progress_set hk₀ (.restarted q rfl hq rfl) hk
  | retryFails hk₀ _ hq _ hnext => exact progress_set hk₀ (.kept _ hq hnext) hk
  | fallbackFails hk₀ _ hq => exact progress_set hk₀ (.kept _ hq rfl) hk
  | adopt _ hk₀ => exact progress_set hk₀ (.kept _ rfl rfl) hk
  | abort hk₀ | finish hk₀ => exact progress_set hk₀ (.ended rfl) hk
  | _ => exact ⟨phase, hk, .same rfl⟩

theorem step_owner_inv {p proc'} (h : s.step env e = some s') (hp : s'.procs[p]? = some proc') :
    (∃ proc, s.procs[p]? = some proc ∧ proc.owner = proc'.owner) ∨
      p = s.procs.length ∧ (proc'.owner = s.waiters.length ∧ s' = s.accept ∨
        ∃ phase, s.waiters[proc'.owner]? = some phase ∧ phase.retries) := by
  by_cases hlt : p < s.procs.length
  · obtain ⟨proc'', hp'', hpres⟩ := step_procs h (getElem?_eq_getElem hlt)
    cases hp''.symm.trans hp
    exact .inl ⟨_, getElem?_eq_getElem hlt, hpres.owner.symm⟩
  · have hnew : ∀ k, s'.procs = s.procs ++ [{ owner := k }] →
        p = s.procs.length ∧ proc' = { owner := k } := by
      intro k hprocs
      rw [hprocs] at hp
      have hlt' := (List.getElem?_eq_some_iff.1 hp).1
      rw [length_append, length_singleton] at hlt'
      rw [getElem?_append_right (by omega)] at hp
      exact ⟨by omega, mem_singleton.1 (mem_of_getElem? hp)⟩
    rcases step_spawns h with hlen | ⟨-, rfl⟩ | ⟨k, phase, stage, hk, hretries, rfl⟩
    · have hlt' := (List.getElem?_eq_some_iff.1 hp).1
      omega
    · obtain ⟨rfl, rfl⟩ := hnew _ rfl
      exact .inr ⟨rfl, .inl ⟨rfl, rfl⟩⟩
    · obtain ⟨rfl, rfl⟩ := hnew k rfl
      exact .inr ⟨rfl, .inr ⟨phase, hk, hretries⟩⟩

theorem step_entering_inv (h : s.step env e = some s') (hk : s'.waiters[k]? = some .entering) :
    s.waiters[k]? = some .entering ∨ k = s.waiters.length := by
  by_cases hlt : k < s.waiters.length
  · obtain ⟨phase', hphase', hpro⟩ := step_progress h (getElem?_eq_getElem hlt)
    cases hphase'.symm.trans hk
    cases hpro with
    | same heq => exact .inl (heq ▸ getElem?_eq_getElem hlt)
    | ended heq => cases heq
    | kept p hp hp' | entered p he hp hprocess hp' | restarted p he hp hp' => cases hp'
  · have hlt' := (List.getElem?_eq_some_iff.1 hk).1
    rcases step_waiters h with heq | ⟨-, rfl⟩ | ⟨k₀, _, _, -, heq, -⟩
    · rw [heq] at hlt'
      omega
    · rw [accept, length_append, length_singleton] at hlt'
      exact .inr (by omega)
    · rw [heq, length_set] at hlt'
      omega

/-- Every process belongs to an accepted `StartAgent`, which starts no other one before its
goroutine begins. -/
structure Founded (s : Supervisor) : Prop where
  known : ∀ {p : ℕ} {proc : Proc}, s.procs[p]? = some proc → proc.owner < s.waiters.length
  sole : ∀ {p q : ℕ} {proc proc' : Proc}, s.procs[p]? = some proc → s.procs[q]? = some proc' →
    proc.owner = proc'.owner → s.waiters[proc.owner]? = some .entering → p = q

theorem Founded.step (hs : s.Founded) (h : s.step env e = some s') : s'.Founded := by
  have hgrow : s.waiters.length ≤ s'.waiters.length := by
    rcases step_waiters h with heq | ⟨-, rfl⟩ | ⟨_, _, _, -, heq, -⟩
    · rw [heq]
    · simp [accept]
    · rw [heq, length_set]
  constructor
  case known =>
    intro p proc' hp
    obtain ⟨proc, hp', heq⟩ | ⟨-, ⟨heq, rfl⟩ | ⟨phase, hk, -⟩⟩ := step_owner_inv h hp
    · exact heq ▸ lt_of_lt_of_le (hs.known hp') hgrow
    · rw [accept, length_append, length_singleton]
      omega
    · exact lt_of_lt_of_le (List.getElem?_eq_some_iff.1 hk).1 hgrow
  case sole =>
    intro p q proc proc' hp hq howner hentering
    -- an old process and a new one of the same agent: the agent was not about to begin
    have hmixed : ∀ {old : Proc} {p : ℕ}, s.procs[p]? = some old → old.owner = proc.owner →
        (proc.owner = s.waiters.length ∧ s' = s.accept ∨
          ∃ phase, s.waiters[proc.owner]? = some phase ∧ phase.retries) → False := by
      rintro old p hold heq (⟨hlen, -⟩ | ⟨phase, hk, hretries⟩)
      · have hknown := hs.known hold
        omega
      · obtain hwas | hlen := step_entering_inv h hentering
        · cases hwas.symm.trans hk
          cases hretries
        · have hlt := (List.getElem?_eq_some_iff.1 hk).1
          omega
    obtain ⟨old, hold, heq⟩ | ⟨hnew, hcase⟩ := step_owner_inv h hp
    · obtain ⟨old', hold', heq'⟩ | ⟨-, hcase'⟩ := step_owner_inv h hq
      · obtain hwas | hlen := step_entering_inv h hentering
        · exact hs.sole hold hold' (by rw [heq, heq', howner]) (heq ▸ hwas)
        · have hknown := hs.known hold
          omega
      · exact (hmixed hold heq (howner ▸ hcase')).elim
    · obtain ⟨old', hold', heq'⟩ | ⟨hnew', -⟩ := step_owner_inv h hq
      · exact (hmixed hold' (heq'.trans howner.symm) hcase).elim
      · rw [hnew, hnew']

end Supervisor

/-! ## Runs -/

namespace Streaming

variable {env : GatewayEnv} {s s' : Streaming} {sup' : Supervisor} {e : GatewayEvent} {p : ℕ}

/-- The goroutine of an agent is busy with a process or about to be, or it has given up before any
final state was written. -/
def Cared (sup : Supervisor) (finished : List ℕ) (p : ℕ) : Prop :=
  ∃ proc, sup.procs[p]? = some proc ∧
    (sup.waiters[proc.owner]? = some .entering ∨
      (∃ phase, sup.waiters[proc.owner]? = some phase ∧ phase.proc? = some p) ∨
      sup.waiters[proc.owner]? = some .done ∧
        ∀ q ∈ finished, ∀ other, sup.procs[q]? = some other → other.owner ≠ proc.owner)

/-- The goroutine that has written a final state has ended, and every stream that waits for an open
channel is cared for. -/
structure Tended (s : Streaming) : Prop where
  sound : s.Sound
  owned : s.sup.Owned
  founded : s.sup.Founded
  finished : ∀ p ∈ s.finished, ∃ proc, s.sup.procs[p]? = some proc ∧
    s.sup.waiters[proc.owner]? = some .done
  cared : ∀ st ∈ s.streams, st.phase = .waiting → st.closed = false →
    Cared s.sup s.finished st.proc

theorem Tended.released (hs : s.Tended) : s.Released := by
  rintro st hst hwaiting ⟨q, hq, other, mine, hother, hmine, howner⟩
  left
  by_contra hclosed
  obtain ⟨proc, hproc, hcase⟩ := hs.cared st hst hwaiting (by simpa using hclosed)
  cases hmine.symm.trans hproc
  obtain ⟨_, hother', hdone⟩ := hs.finished q hq
  cases hother.symm.trans hother'
  rw [howner] at hdone
  obtain hentering | ⟨phase, hphase, hp⟩ | ⟨-, hnone⟩ := hcase
  · cases hdone.symm.trans hentering
  · cases hdone.symm.trans hphase
    cases hp
  · exact hnone q hq other hother howner

theorem ending_eq_some {q} (h : ending s.sup e = some q) :
    ∃ k err, e = .finish k ∧ s.sup.waiters[k]? = some (.closing q err) := by
  cases e with
  | finish k =>
    simp only [ending] at h
    split at h
    · cases h
      exact ⟨k, _, rfl, ‹_›⟩
    · cases h
  | _ => cases h

section Gateway

variable (hs : s.Tended) (h : s.sup.step env e = some sup')

include hs h

/-- A process whose final state was written before an event belongs to a goroutine that has ended;
otherwise it is the one the event ends. -/
theorem finished_or_ending {q other} (hother : sup'.procs[q]? = some other)
    (hq : q ∈ s.finished ++ (ending s.sup e).toList) :
    (∃ old, q ∈ s.finished ∧ s.sup.procs[q]? = some old ∧ old.owner = other.owner ∧
      s.sup.waiters[other.owner]? = some .done) ∨
    ∃ err, ending s.sup e = some q ∧ e = .finish other.owner ∧
      s.sup.waiters[other.owner]? = some (.closing q err) := by
  rw [mem_append, Option.mem_toList] at hq
  obtain hq | hend := hq
  · obtain ⟨old, hold, hdone⟩ := hs.finished q hq
    obtain ⟨proc', hproc', hpres⟩ := Supervisor.step_procs h hold
    cases hproc'.symm.trans hother
    exact .inl ⟨old, hq, hold, hpres.owner.symm, hpres.owner ▸ hdone⟩
  · obtain ⟨k, err, rfl, hk⟩ := ending_eq_some hend
    obtain ⟨old, hold, rfl⟩ := hs.owned.holds hk rfl
    obtain ⟨proc', hproc', hpres⟩ := Supervisor.step_procs h hold
    cases hproc'.symm.trans hother
    rw [hpres.owner]
    exact .inr ⟨err, hend, rfl, hk⟩

theorem cared_step (he : s.sup.entersOwn e)
    (hrestart : ∀ k, e = .restart k none → s.sup.waiters[k]?.bind WaitPhase.proc? ≠ some p)
    (hend : ending s.sup e ≠ some p) (hp : Cared s.sup s.finished p) :
    Cared sup' (s.finished ++ (ending s.sup e).toList) p := by
  obtain ⟨proc, hproc, hcase⟩ := hp
  obtain ⟨proc', hproc', hpres⟩ := Supervisor.step_procs h hproc
  refine ⟨proc', hproc', ?_⟩
  rw [hpres.owner]
  obtain hentering | ⟨phase, hphase, hp⟩ | ⟨hdone, hnone⟩ := hcase
  · obtain ⟨phase', hphase', hpro⟩ := Supervisor.step_progress h hentering
    cases hpro with
    | same heq => exact .inl (heq ▸ hphase')
    | ended heq =>
      refine .inr (.inr ⟨heq ▸ hphase', fun q hq other hother heq => ?_⟩)
      obtain ⟨_, -, -, -, hdone⟩ | ⟨_, -, -, hclosing⟩ := finished_or_ending hs h hother hq
      · cases hdone.symm.trans (heq ▸ hentering)
      · cases hclosing.symm.trans (heq ▸ hentering)
    | kept q hq | restarted q he' hq => cases hq
    | entered q he' hq hprocess hq' =>
      subst he'
      simp only [Supervisor.entersOwn, hprocess, Option.all_some, Option.any_eq_true,
        decide_eq_true_eq] at he
      obtain ⟨other, hother, howner⟩ := he
      obtain rfl := hs.founded.sole hproc hother howner.symm hentering
      exact .inr (.inl ⟨phase', hphase', hq'⟩)
  · obtain ⟨phase', hphase', hpro⟩ := Supervisor.step_progress h hphase
    cases hpro with
    | same heq => exact .inr (.inl ⟨phase', hphase', heq ▸ hp⟩)
    | ended heq =>
      refine .inr (.inr ⟨heq ▸ hphase', fun q hq other hother heq => ?_⟩)
      obtain ⟨_, -, -, -, hdone⟩ | ⟨_, hq', -, hclosing⟩ := finished_or_ending hs h hother hq
      · cases hdone.symm.trans (heq ▸ hphase)
        cases hp
      · cases hclosing.symm.trans (heq ▸ hphase)
        cases hp
        exact hend hq'
    | kept q hq hq' =>
      cases hq.symm.trans hp
      exact .inr (.inl ⟨phase', hphase', hq'⟩)
    | entered q he' hq =>
      subst hq
      cases hp
    | restarted q he' hq =>
      refine absurd ?_ (hrestart _ he')
      rw [hphase]
      exact hp
  · refine .inr (.inr ⟨Supervisor.step_done h hdone, fun q hq other hother heq => ?_⟩)
    obtain ⟨old, hq', hold, howner, -⟩ | ⟨_, -, -, hclosing⟩ := finished_or_ending hs h hother hq
    · exact hnone q hq' old hold (howner.trans heq)
    · cases hclosing.symm.trans (heq ▸ hdone)

theorem finished_step : ∀ q ∈ s.finished ++ (ending s.sup e).toList,
    ∃ proc, sup'.procs[q]? = some proc ∧ sup'.waiters[proc.owner]? = some .done := by
  intro q hq
  rw [mem_append, Option.mem_toList] at hq
  obtain hq | hend := hq
  · obtain ⟨old, hold, hdone⟩ := hs.finished q hq
    obtain ⟨proc', hproc', hpres⟩ := Supervisor.step_procs h hold
    exact ⟨proc', hproc', hpres.owner ▸ Supervisor.step_done h hdone⟩
  · obtain ⟨k, err, rfl, hk⟩ := ending_eq_some hend
    obtain ⟨old, hold, rfl⟩ := hs.owned.holds hk rfl
    obtain ⟨proc', hproc', hpres⟩ := Supervisor.step_procs h hold
    refine ⟨proc', hproc', ?_⟩
    cases Supervisor.effect_of_step h
    rw [hpres.owner]
    exact List.getElem?_set_self (List.getElem?_eq_some_iff.1 hk).1

end Gateway

theorem busyWith_cared (finished : List ℕ) (h : busyWith s.sup p) : Cared s.sup finished p := by
  simp only [busyWith, Option.any_eq_true, Bool.or_eq_true, decide_eq_true_eq] at h
  obtain ⟨proc, hproc, phase, hphase, rfl | hp⟩ := h
  · exact ⟨proc, hproc, .inl hphase⟩
  · exact ⟨proc, hproc, .inr (.inl ⟨phase, hphase, hp⟩)⟩

theorem Tended.set (hs : s.Tended) (i : ℕ) {st st'} (hst : s.streams[i]? = some st)
    (hsound : Sound { s with streams := s.streams.set i st' }) (hproc : st'.proc = st.proc)
    (hclosed : st'.closed = st.closed) (hphase : st'.phase = .waiting → st.phase = .waiting) :
    Tended { s with streams := s.streams.set i st' } where
  sound := hsound
  owned := hs.owned
  founded := hs.founded
  finished := hs.finished
  cared other hother hwaiting hopen := by
    obtain hmem | rfl := mem_or_eq_of_mem_set hother
    · exact hs.cared other hmem hwaiting hopen
    · rw [hproc]
      exact hs.cared st (mem_of_getElem? hst) (hphase hwaiting) (hclosed ▸ hopen)

theorem Sound.not_closed (hs : s.Sound) {st} (hst : st ∈ s.streams) {q}
    (hwaiting : (st.close q).phase = .waiting) (hopen : (st.close q).closed = false) :
    st.phase = .waiting ∧ st.closed = false ∧ st.proc ≠ q := by
  have hphase := (OutputStream.close_fields q st).2 ▸ hwaiting
  unfold OutputStream.close at hopen
  split_ifs at hopen with hout
  have hattached := (hs.1 st hst).waiting hphase hopen
  refine ⟨hphase, hopen, fun heq => hout ?_⟩
  simp [OutputStream.isOutputOf, hattached, heq]

theorem Tended.gateway (hs : s.Tended) (he : s.attentive (.gateway e))
    (h : s.step env (.gateway e) = some s') : s'.Tended := by
  have hsound := hs.sound.step h
  have hown : s.sup.entersOwn e := by
    cases e with
    | enter k => exact he
    | _ => rfl
  have hrestart : ∀ st ∈ s.streams, st.phase = .waiting → ∀ k, e = .restart k none →
      s.sup.waiters[k]?.bind WaitPhase.proc? ≠ some st.proc := by
    rintro st hst hwaiting k rfl
    simp only [attentive, all_eq_true, Bool.or_eq_true, decide_eq_true_eq] at he
    exact (he st hst).resolve_left fun hne => hne hwaiting
  obtain ⟨sup', hsup, h⟩ := Option.map_eq_some_iff.1 h
  have howned := hs.owned.step hown hsup
  have hfounded := hs.founded.step hsup
  have hfinished := finished_step hs hsup
  have hcared : ∀ st ∈ s.streams, st.phase = .waiting → st.closed = false →
      ending s.sup e ≠ some st.proc → Cared sup' (s.finished ++ (ending s.sup e).toList) st.proc :=
    fun st hst hwaiting hopen hend => cared_step hs hsup hown (hrestart st hst hwaiting) hend
      (hs.cared st hst hwaiting hopen)
  split at h
  · rename_i q hq
    subst h
    rw [hq] at hfinished hcared
    refine ⟨hsound, howned, hfounded, hfinished, fun st hst hwaiting hopen => ?_⟩
    obtain ⟨old, hold, rfl⟩ := mem_map.1 hst
    obtain ⟨hphase, hclosed, hne⟩ := hs.sound.not_closed hold hwaiting hopen
    rw [(OutputStream.close_fields q old).1]
    exact hcared old hold hphase hclosed fun heq => hne (Option.some.inj heq).symm
  · rename_i hq
    subst h
    rw [hq, Option.toList_none, append_nil] at hfinished hcared
    exact ⟨hsound, howned, hfounded, hfinished, fun st hst hwaiting hopen =>
      hcared st hst hwaiting hopen nofun⟩

theorem Tended.step (hs : s.Tended) {e} (he : s.attentive e) (h : s.step env e = some s') :
    s'.Tended := by
  have hsound := hs.sound.step h
  cases e with
  | gateway e => exact hs.gateway he h
  | streamOutput =>
    simp only [Streaming.step] at h
    split_ifs at h
    obtain ⟨p, -, rfl⟩ := Option.map_eq_some_iff.1 h
    refine ⟨hsound, hs.owned, hs.founded, hs.finished, fun st hst hwaiting => ?_⟩
    obtain hst | hst := mem_append.1 hst
    · exact hs.cared st hst hwaiting
    · cases mem_singleton.1 hst
      cases hwaiting
  | subscribe i =>
    obtain ⟨st, st', hst, hphase, hst', rfl⟩ := change_eq_some h
    obtain rfl := Option.some.inj hst'
    refine ⟨hsound, hs.owned, hs.founded, hs.finished, fun other hother hwaiting hopen => ?_⟩
    obtain hmem | rfl := mem_or_eq_of_mem_set hother
    · exact hs.cared other hmem hwaiting hopen
    · simp only [attentive, hst] at he
      exact busyWith_cared s.finished he
  | output p line =>
    simp only [Streaming.step] at h
    split_ifs at h
    obtain rfl := Option.some.inj h
    refine ⟨hsound, hs.owned, hs.founded, hs.finished, fun st hst hwaiting hopen => ?_⟩
    obtain ⟨old, hold, rfl⟩ := mem_map.1 hst
    obtain ⟨hproc, hphase, -, hclosed⟩ := OutputStream.send_fields p line old
    rw [hproc]
    exact hs.cared old hold (hphase ▸ hwaiting) (hclosed ▸ hopen)
  | receive i =>
    obtain ⟨st, st', hst, hphase, hst', rfl⟩ := change_eq_some h
    obtain ⟨hproc, -, hclosed, -⟩ := OutputStream.receive_fields hst'
    exact hs.set i hst hsound hproc hclosed fun _ => hphase
  | leave i | detach i =>
    obtain ⟨st, st', hst, hphase, hst', rfl⟩ := change_eq_some h
    obtain rfl := Option.some.inj hst'
    exact hs.set i hst hsound rfl rfl nofun

theorem tended_start : Tended {} where
  sound := ⟨by simp, rfl⟩
  owned := Supervisor.owned_start
  founded := ⟨by simp, by simp⟩
  finished := by simp
  cared := by simp

/-- Nothing is ever sent on a closed channel.  And if streams are added while the goroutine of their
agent is busy and no process with a stream is restarted, no stream is left behind. -/
theorem streams_released {env : GatewayEnv} :
    (∀ s, Machine.Reaches (step env) Machine.always {} s → s.panicked = false) ∧
    ∀ s, Machine.Reaches (step env) attentive {} s → s.Released :=
  ⟨fun _ h => (h.keeps (I := Sound) tended_start.sound fun hs _ => hs.step).2,
    fun _ h => (h.keeps (I := Tended) tended_start fun hs he => hs.step he).released⟩

def followed : List StreamEvent :=
  [.gateway .startAgent, .gateway (.launch none), .streamOutput, .subscribe 0, .gateway (.enter 0),
    .output 0 ⟨false, "done"⟩, .receive 0, .gateway (.exit 0 none), .gateway (.waited 0 ""),
    .gateway (.finish 0)]

def followedEnd : Streaming :=
  (Machine.replay (step sampleGatewayEnv) attentive followed {}).getD {}

theorem streams_released_followed :
    Machine.Reaches (step sampleGatewayEnv) attentive {} followedEnd ∧
      followedEnd.streams.map (·.closed) = [true] ∧ followedEnd.finished = [0] ∧
      followedEnd.Released := by
  have hreach : Machine.Reaches (step sampleGatewayEnv) attentive {} followedEnd :=
    Machine.reaches_replay followed rfl
  exact ⟨hreach, rfl, rfl, streams_released.2 _ hreach⟩

def latecomer : List StreamEvent :=
  Supervisor.completion.map .gateway ++ [.streamOutput, .subscribe 0]

def overtaken : List StreamEvent :=
  [.gateway .startAgent, .gateway (.launch none), .gateway (.enter 0), .streamOutput, .subscribe 0,
    .gateway (.exit 0 (some "429")), .gateway (.waited 0 ""), .gateway (.restart 0 none),
    .gateway (.adopt 0), .gateway (.exit 1 none), .gateway (.waited 0 ""), .gateway (.finish 0)]

def latecomerEnd : Streaming :=
  (Machine.replay (step sampleGatewayEnv) Machine.always latecomer {}).getD {}

def overtakenEnd : Streaming :=
  (Machine.replay (step sampleGatewayEnv) Machine.always overtaken {}).getD {}

theorem not_released {st q mine proc} (hst : s.streams = [st]) (hwaiting : st.phase = .waiting)
    (hopen : st.closed = false) (hmine : s.sup.procs[st.proc]? = some mine)
    (hfinished : s.finished = [q]) (hproc : s.sup.procs[q]? = some proc)
    (howner : proc.owner = mine.owner) (hdone : s.sup.waiters = [.done]) : ¬ s.Released := by
  intro h
  have hmem := hst ▸ mem_cons_self
  have hagent : s.AgentFinished st :=
    ⟨q, hfinished ▸ mem_cons_self, proc, mine, hproc, hmine, howner⟩
  obtain hclosed | ⟨k, err, hk⟩ := h st hmem hwaiting hagent
  · rw [hopen] at hclosed
    cases hclosed
  · rw [hdone] at hk
    cases mem_singleton.1 (mem_of_getElem? hk)

/-- The channels of both streams stay open after their agents have completed. -/
theorem streams_left_behind :
    (Machine.Reaches (step sampleGatewayEnv) Machine.always {} latecomerEnd ∧
      ¬ latecomerEnd.Released) ∧
    Machine.Reaches (step sampleGatewayEnv) Machine.always {} overtakenEnd ∧
      ¬ overtakenEnd.Released := by
  refine ⟨⟨Machine.reaches_replay latecomer rfl, ?_⟩, Machine.reaches_replay overtaken rfl, ?_⟩
  all_goals exact not_released rfl rfl rfl rfl rfl rfl rfl rfl

end Streaming

end Uncworks
