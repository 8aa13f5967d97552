import Uncworks.Buckets.TokenBucket
import Uncworks.Machine.Runs

/-!
# The rate limit of the BFF

`RateLimitMiddleware` has a bucket for each address.  A sweep deletes the buckets that have not
been used for ten minutes: it looks at a bucket under its lock, and deletes the address from the
map after it has given the lock back.

The steps are those of one client, whose requests come one after another.  Times are in seconds.
-/

namespace Uncworks

open List Option

open TokenBucket (Bucket)

/-! ## The middleware -/

structure IpBucket where
  tokens : ℚ
  lastCheck : ℚ

def IpBucket.request (rate : ℚ) (bucket : IpBucket) (now : ℚ) : IpBucket × Bool :=
  let elapsed := now - bucket.lastCheck
  let tokens := bucket.tokens + elapsed * rate
  let tokens := if tokens > rate then rate else tokens
  if tokens < 1 then ({ tokens, lastCheck := now }, false)
  else ({ tokens := tokens - 1, lastCheck := now }, true)

def bucketTTL : ℚ := 10 * 60

/-- Where the sweep is: `sweeping` since a time, or about to delete the client's bucket. -/
inductive Sweeper where
  | waiting
  | sweeping (now : ℚ)
  | deleting
  deriving DecidableEq

structure RateLimiter where
  clock : ℚ
  /-- The buckets that were made for the client; the others are not looked at. -/
  heap : ℕ → IpBucket
  made : ℕ
  /-- The entry of the map `buckets`. -/
  stored : Option ℕ
  /-- The bucket of the request that is being handled. -/
  loaded : Option ℕ
  sweeper : Sweeper
  /-- The requests with their answers: whether they were admitted. -/
  log : List (ℚ × Bool)

inductive LimiterEvent where
  /-- A request calls `LoadOrStore`. -/
  | load (now : ℚ)
  /-- The request has the lock of its bucket. -/
  | serve (now : ℚ)
  /-- The ticker fires. -/
  | sweep (now : ℚ)
  /-- The sweep has the lock of the client's bucket. -/
  | check
  | delete

namespace RateLimiter

def init (start : ℚ) : RateLimiter where
  clock := start
  heap _ := ⟨0, start⟩
  made := 0
  stored := none
  loaded := none
  sweeper := .waiting
  log := []

variable (rate : ℚ)

section

variable (s : RateLimiter)

def load (now : ℚ) : RateLimiter :=
  match s.stored with
  | some bucket => { s with clock := now, loaded := some bucket }
  | none =>
    { s with
      clock := now
      heap := Function.update s.heap s.made { tokens := rate, lastCheck := now }
      made := s.made + 1
      stored := some s.made
      loaded := some s.made }

def serve (bucket : ℕ) (now : ℚ) : RateLimiter :=
  { s with
    clock := now
    heap := Function.update s.heap bucket ((s.heap bucket).request rate now).1
    loaded := none
    log := s.log ++ [(now, ((s.heap bucket).request rate now).2)] }

def check (bucket : ℕ) (now : ℚ) : RateLimiter :=
  { s with
    sweeper := if now - (s.heap bucket).lastCheck > bucketTTL then .deleting else .waiting }

def step : LimiterEvent → Option RateLimiter
  | .load now => if s.loaded = none ∧ s.clock ≤ now then some (s.load rate now) else none
  | .serve now =>
    match s.loaded with
    | some bucket => if s.clock ≤ now then some (s.serve rate bucket now) else none
    | none => none
  | .sweep now =>
    if s.sweeper ≠ .deleting ∧ s.clock ≤ now then
      some { s with clock := now, sweeper := .sweeping now }
    else none
  | .check =>
    match s.sweeper, s.stored with
    | .sweeping now, some bucket => some (s.check bucket now)
    | .sweeping _, none => some { s with sweeper := .waiting }
    | _, _ => none
  | .delete =>
    if s.sweeper = .deleting then some { s with stored := none, sweeper := .waiting } else none

/-- A request that has the lock of its bucket finds it in the map, and no sweep is about to delete
it. -/
def kept : LimiterEvent → Bool
  | .serve _ => s.loaded = s.stored ∧ s.sweeper ≠ .deleting
  | _ => true

end

end RateLimiter

/-! ## The limit -/

def idealBucket (rate start : ℚ) (requests : List ℚ) : Bucket :=
  Bucket.after rate rate ⟨rate, start⟩ requests

/-- Requests are admitted at the rate, and none is rejected for which the ideal bucket has a token.
-/
structure Limits (rate start : ℚ) (log : List (ℚ × Bool)) : Prop where
  admitted : ∀ a T, 0 ≤ T → (Bucket.admitted log a (a + T) : ℚ) ≤ rate + rate * T
  rejected : ∀ before now after, log = before ++ (now, false) :: after →
    (idealBucket rate start (before.map Prod.fst)).level rate rate now < 1

/-! ## The buckets of the map follow the ideal bucket -/

section Follow

variable {rate start : ℚ} {s s' : RateLimiter} {now : ℚ} {ideal : Bucket} {b : IpBucket} {clock : ℚ}

def IpBucket.bucket (b : IpBucket) : Bucket := ⟨b.tokens, b.lastCheck⟩

theorem IpBucket.request_eq (b : IpBucket) (rate now : ℚ) :
    (b.request rate now).1.bucket = (b.bucket.take rate rate now).1 ∧
      (b.request rate now).2 = (b.bucket.take rate rate now).2 := by
  have hlevel : b.bucket.level rate rate now =
      if b.tokens + (now - b.lastCheck) * rate > rate then rate
      else b.tokens + (now - b.lastCheck) * rate := by
    rw [Bucket.level, min_def_lt, mul_comm]
    rfl
  rw [Bucket.take, hlevel, IpBucket.request]
  constructor <;> split_ifs <;> rfl

structure Mirrors (rate clock : ℚ) (b : IpBucket) (ideal : Bucket) : Prop where
  nonneg : 0 ≤ b.tokens
  past : b.lastCheck ≤ clock
  level : ∀ t, clock ≤ t → b.bucket.level rate rate t = ideal.level rate rate t

def IsFull (rate clock : ℚ) (ideal : Bucket) : Prop := ∀ t, clock ≤ t → ideal.level rate rate t = rate

theorem Mirrors.mono (h : Mirrors rate clock b ideal)
    (hnow : clock ≤ now) : Mirrors rate now b ideal :=
  ⟨h.nonneg, h.past.trans hnow, fun t ht => h.level t (hnow.trans ht)⟩

theorem mirrors_new (hrate : 0 ≤ rate) (h : IsFull rate now ideal) :
    Mirrors rate now ⟨rate, now⟩ ideal where
  nonneg := hrate
  past := le_rfl
  level t ht := by
    rw [h t ht]
    refine Bucket.level_eq_cap (le_add_of_nonneg_right (mul_nonneg hrate ?_))
    exact sub_nonneg.2 ht

theorem Mirrors.isFull (hrate : 0 ≤ rate)
    (h : Mirrors rate clock b ideal) (hnow : now ≤ clock) (hidle : now - b.lastCheck > bucketTTL) :
    IsFull rate clock ideal := by
  intro t ht
  rw [← h.level t ht]
  have hlong : 1 ≤ t - b.lastCheck := by
    rw [bucketTTL] at hidle
    linarith
  have hgain := mul_le_mul_of_nonneg_left hlong hrate
  refine Bucket.level_eq_cap ?_
  show rate ≤ b.tokens + rate * (t - b.lastCheck)
  linarith [h.nonneg]

theorem Mirrors.request (hrate : 0 ≤ rate)
    (h : Mirrors rate clock b ideal) (hnow : clock ≤ now) :
    Mirrors rate now (b.request rate now).1 (ideal.take rate rate now).1 ∧
      (b.request rate now).2 = (ideal.take rate rate now).2 := by
  have htake := Bucket.take_congr (h.level now hnow)
  obtain ⟨hleft, hanswer⟩ := b.request_eq rate now
  have hnonneg : 0 ≤ (b.request rate now).1.bucket.tokens := by
    rw [hleft]
    exact Bucket.tokens_take_nonneg
      (Bucket.level_nonneg hrate hrate h.nonneg (h.past.trans hnow))
  have htime : (b.request rate now).1.bucket.time = now := by rw [hleft, Bucket.time_take]
  refine ⟨⟨hnonneg, htime.le, fun t _ => ?_⟩, hanswer.trans (by rw [htake])⟩
  rw [hleft, htake]

structure FollowsIdeal (rate start : ℚ) (s : RateLimiter) : Prop where
  answers : s.log = Bucket.answers rate rate ⟨rate, start⟩ (s.log.map Prod.fst)
  sorted : (start :: s.log.map Prod.fst).Pairwise (· ≤ ·)
  past : ∀ t ∈ start :: s.log.map Prod.fst, t ≤ s.clock
  stored : ∀ b, s.stored = some b →
    Mirrors rate s.clock (s.heap b) (idealBucket rate start (s.log.map Prod.fst))
  deleted : s.stored = none ∨ s.sweeper = .deleting →
    IsFull rate s.clock (idealBucket rate start (s.log.map Prod.fst))
  sweeping : ∀ now, s.sweeper = .sweeping now → now ≤ s.clock

namespace FollowsIdeal

theorem init (hrate : 0 ≤ rate) : FollowsIdeal rate start (.init start) where
  answers := rfl
  sorted := pairwise_singleton _ _
  past := by simp [RateLimiter.init]
  stored := nofun
  deleted _ t ht := Bucket.level_eq_cap
    (le_add_of_nonneg_right (mul_nonneg hrate (sub_nonneg.2 ht)))
  sweeping := nofun

theorem tick (h : FollowsIdeal rate start s) (hnow : s.clock ≤ now) :
    FollowsIdeal rate start { s with clock := now } where
  answers := h.answers
  sorted := h.sorted
  past t ht := (h.past t ht).trans hnow
  stored b hb := (h.stored b hb).mono hnow
  deleted hgone t ht := h.deleted hgone t (hnow.trans ht)
  sweeping t ht := (h.sweeping t ht).trans hnow

theorem load (hrate : 0 ≤ rate) (h : FollowsIdeal rate start s) (hnow : s.clock ≤ now) :
    FollowsIdeal rate start (s.load rate now) := by
  have htick := h.tick hnow
  rw [RateLimiter.load]
  split
  · exact ⟨htick.answers, htick.sorted, htick.past, htick.stored, htick.deleted, htick.sweeping⟩
  · rename_i hstored
    have hfull := htick.deleted (.inl hstored)
    refine ⟨htick.answers, htick.sorted, htick.past, fun b hb => ?_, fun _ => hfull, htick.sweeping⟩
    cases hb
    simpa using mirrors_new hrate hfull

theorem serve (hrate : 0 ≤ rate) (h : FollowsIdeal rate start s) {b} (hstored : s.stored = some b)
    (hsweeper : s.sweeper ≠ .deleting) (hnow : s.clock ≤ now) :
    FollowsIdeal rate start (s.serve rate b now) := by
  obtain ⟨hmirrors, hanswer⟩ := (h.stored b hstored).request hrate hnow
  have hlog : (s.serve rate b now).log.map Prod.fst = s.log.map Prod.fst ++ [now] := by
    simp [RateLimiter.serve]
  have hpast : ∀ t ∈ start :: s.log.map Prod.fst, t ≤ now := fun t ht => (h.past t ht).trans hnow
  refine ⟨?_, ?_, ?_, ?_, ?_, fun t ht => (h.sweeping t ht).trans hnow⟩
  · rw [hlog, Bucket.answers_append, ← h.answers, RateLimiter.serve, hanswer]
    rfl
  · rw [hlog, ← cons_append, pairwise_append]
    exact ⟨h.sorted, pairwise_singleton _ _, by simpa using hpast⟩
  · rw [hlog]
    exact fun t ht => (mem_append.1 ht).elim (hpast t) fun ht => (mem_singleton.1 ht).le
  · intro b' hb'
    cases hstored.symm.trans hb'
    rw [hlog, idealBucket, Bucket.after_append]
    simpa [RateLimiter.serve, idealBucket] using hmirrors
  · rintro (hgone | hgone)
    · cases hstored.symm.trans hgone
    · exact absurd hgone hsweeper

theorem check (hrate : 0 ≤ rate) (h : FollowsIdeal rate start s) {b} (hstored : s.stored = some b)
    (hnow : now ≤ s.clock) : FollowsIdeal rate start (s.check b now) where
  answers := h.answers
  sorted := h.sorted
  past := h.past
  stored := h.stored
  deleted := by
    rintro (hgone | hgone)
    · cases hstored.symm.trans hgone
    · refine (h.stored b hstored).isFull hrate hnow ?_
      by_contra hactive
      simp [RateLimiter.check, hactive] at hgone
  sweeping t ht := by
    simp only [RateLimiter.check] at ht
    split_ifs at ht

theorem limits (hrate : 0 ≤ rate) (h : FollowsIdeal rate start s) : Limits rate start s.log where
  admitted a T hT := by
    rw [h.answers]
    exact Bucket.admitted_le hrate hrate hrate h.sorted hT
  rejected before t after hlog := by
    have hanswer := Bucket.answer_eq (h.answers.symm.trans hlog)
    exact Bucket.take_snd_eq_false.1 hanswer.symm

end FollowsIdeal

theorem followsIdeal_step (hrate : 0 ≤ rate) {e} (h : FollowsIdeal rate start s) (hkept : s.kept e)
    (hstep : s.step rate e = some s') : FollowsIdeal rate start s' := by
  cases e with
  | load now =>
    obtain ⟨⟨-, hnow⟩, heq⟩ := ite_none_right_eq_some.1 hstep
    cases heq
    exact h.load hrate hnow
  | serve now =>
    obtain ⟨hloaded, hsweeper⟩ := of_decide_eq_true hkept
    simp only [RateLimiter.step] at hstep
    split at hstep
    · rename_i b hb
      obtain ⟨hnow, heq⟩ := ite_none_right_eq_some.1 hstep
      cases heq
      exact h.serve hrate (hloaded.symm.trans hb) hsweeper hnow
    · cases hstep
  | sweep now =>
    obtain ⟨⟨-, hnow⟩, heq⟩ := ite_none_right_eq_some.1 hstep
    cases heq
    have htick := h.tick hnow
    refine ⟨htick.answers, htick.sorted, htick.past, htick.stored, fun hgone => ?_, fun t ht => ?_⟩
    · exact htick.deleted (.inl (hgone.resolve_right nofun))
    · cases ht
      exact le_rfl
  | check =>
    simp only [RateLimiter.step] at hstep
    split at hstep
    · rename_i now b hsweeper hb
      cases hstep
      exact h.check hrate hb (h.sweeping now hsweeper)
    · rename_i now hsweeper hb
      cases hstep
      exact ⟨h.answers, h.sorted, h.past, h.stored, fun _ => h.deleted (.inl hb), nofun⟩
    · cases hstep
  | delete =>
    obtain ⟨hsweeper, heq⟩ := ite_none_right_eq_some.1 hstep
    cases heq
    exact ⟨h.answers, h.sorted, h.past, nofun, fun _ => h.deleted (.inr hsweeper), nofun⟩

/-- If no request takes a token from a bucket that the sweep deletes, the client's requests are
limited, and none is rejected without need. -/
theorem rateLimit_of_kept (rate start : ℚ) (hrate : 1 ≤ rate)
    (hrun : Machine.Reaches (RateLimiter.step rate) RateLimiter.kept (.init start) s) :
    Limits rate start s.log := by
  have hrate : 0 ≤ rate := zero_le_one.trans hrate
  have hideal := hrun.keeps (.init hrate) (followsIdeal_step hrate)
  exact hideal.limits hrate

end Follow

def idleRun : List LimiterEvent :=
  [.load 0, .serve 0, .sweep 700, .check, .delete, .load 700, .serve 700]

theorem rateLimit_of_kept_idleRun :
    ∃ s, Machine.Reaches (RateLimiter.step 1) RateLimiter.kept (.init 0) s ∧
      s.log = [(0, true), (700, true)] ∧ Limits 1 0 s.log := by
  have hrun : (Machine.replay (RateLimiter.step 1) RateLimiter.kept idleRun (.init 0)).map
      RateLimiter.log = some [(0, true), (700, true)] := by decide +kernel
  obtain ⟨s, hs, hlog⟩ := map_eq_some_iff.1 hrun
  have hreaches := Machine.reaches_replay idleRun hs
  exact ⟨s, hreaches, hlog, rateLimit_of_kept 1 0 le_rfl hreaches⟩

def racingRun : List LimiterEvent :=
  [.load 0, .serve 0, .sweep 700, .check, .load 700, .serve 700, .delete, .load 700, .serve 700]

/-- At a rate of one request per second, two are admitted at the same time. -/
theorem rateLimit_exceeded :
    ∃ s, Machine.Reaches (RateLimiter.step 1) Machine.always (.init 0) s ∧ ¬ Limits 1 0 s.log := by
  have hrun : (Machine.replay (RateLimiter.step 1) Machine.always racingRun (.init 0)).map
      RateLimiter.log = some [(0, true), (700, true), (700, true)] := by decide +kernel
  obtain ⟨s, hs, hlog⟩ := map_eq_some_iff.1 hrun
  refine ⟨s, Machine.reaches_replay racingRun hs, fun hlimits => ?_⟩
  have hle := hlimits.admitted 700 (1 / 2) (by norm_num)
  rw [hlog] at hle
  revert hle
  decide +kernel

end Uncworks
