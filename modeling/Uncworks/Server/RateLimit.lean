import Uncworks.Buckets.Forgetful
import Uncworks.Machine.Runs
import Mathlib.Algebra.Order.Archimedean.Basic

/-!
# The rate limit of the API server

The `RateLimiter` of `internal/server` has an entry for each address, with a token bucket and the
time of the last request.  A sweep evicts the entries that have not been seen within the TTL; the
next request then gets a new bucket, which is full.

`golang.org/x/time/rate` is the ideal token bucket of `Buckets.TokenBucket`.  Times are in seconds.
-/

namespace Uncworks.Server

open List Option Function

open TokenBucket (Bucket)

/-! ## The limiter -/

structure RateLimiterConfig where
  enabled : Bool
  rps : ℚ
  burst : ℤ
  ttlMinutes : ℤ
  trustProxy : Bool

structure IpEntry where
  limiter : Bucket
  lastSeen : ℚ

structure RateLimiter where
  entries : String → Option IpEntry
  cfg : RateLimiterConfig

def defaultRPS : ℚ := 10

def defaultBurst : ℤ := 20

def newRateLimiter (cfg : RateLimiterConfig) : RateLimiter where
  entries _ := none
  cfg :=
    { cfg with
      rps := if cfg.rps ≤ 0 then defaultRPS else cfg.rps
      burst := if cfg.burst ≤ 0 then defaultBurst else cfg.burst }

/-- `time.Duration(rl.cfg.TTLMinutes) * time.Minute`: a product of 64 bits, in nanoseconds. -/
def RateLimiterConfig.ttl (cfg : RateLimiterConfig) : ℚ :=
  ((cfg.ttlMinutes * 60000000000).bmod (2 ^ 64) : ℤ) / 1000000000

namespace RateLimiter

def sweep (rl : RateLimiter) (now : ℚ) : RateLimiter :=
  { rl with
    entries := fun ip =>
      (rl.entries ip).filter fun entry => !decide (now - entry.lastSeen > rl.cfg.ttl) }

def limiterOf (rl : RateLimiter) (ip : String) (now : ℚ) : Bucket :=
  Bucket.current rl.cfg.burst ((rl.entries ip).map IpEntry.limiter) now

/-- `Allow` reads the clock twice: the entry is seen at the first reading, and the limiter takes a
token at the second one. -/
def allow (rl : RateLimiter) (ip : String) (seen now : ℚ) : RateLimiter × Bool :=
  let taken := (rl.limiterOf ip seen).take rl.cfg.burst rl.cfg.rps now
  ({ rl with
      entries := Function.update rl.entries ip (some { limiter := taken.1, lastSeen := seen }) },
    taken.2)

end RateLimiter

/-! ## Schedules -/

inductive LimiterEvent where
  | allow (ip : String) (seen now : ℚ)
  | sweep (now : ℚ)

structure LimiterRun where
  rl : RateLimiter
  clock : ℚ
  log : List (String × ℚ × Bool)

namespace LimiterRun

def init (cfg : RateLimiterConfig) (start : ℚ) : LimiterRun where
  rl := newRateLimiter cfg
  clock := start
  log := []

/-- Calls hold the mutex, so they come one after another. -/
def step (s : LimiterRun) : LimiterEvent → Option LimiterRun
  | .allow ip seen now =>
    if s.clock ≤ seen ∧ seen ≤ now then
      some
        { rl := (s.rl.allow ip seen now).1
          clock := now
          log := s.log ++ [(ip, now, (s.rl.allow ip seen now).2)] }
    else none
  | .sweep now => if s.clock ≤ now then some { s with rl := s.rl.sweep now, clock := now } else none

def prompt (delay : ℚ) (_ : LimiterRun) : LimiterEvent → Bool
  | .allow _ seen now => now - seen ≤ delay
  | .sweep _ => true

def requestsOf (s : LimiterRun) (ip : String) : List (ℚ × Bool) :=
  s.log.filterMap fun r => if r.1 = ip then some r.2 else none

/-- In every interval, at most `Burst + RPS * T` requests of an address are admitted. -/
def Limited (s : LimiterRun) : Prop :=
  ∀ (ip : String) (a T : ℚ), 0 ≤ T →
    (Bucket.admittedWithin (s.requestsOf ip) a (a + T) : ℚ) ≤ s.rl.cfg.burst + s.rl.cfg.rps * T

end LimiterRun

/-! ## Eviction of full buckets -/

section Paced

variable {cfg : RateLimiterConfig} {delay start now : ℚ} {s s' : LimiterRun}

structure Paced (cfg : RateLimiterConfig) (delay start : ℚ) (s : LimiterRun) : Prop where
  config : s.rl.cfg = cfg
  follows : ∀ ip, Bucket.Follows cfg.burst cfg.rps start s.clock
    ((s.rl.entries ip).map IpEntry.limiter) (s.requestsOf ip)
  seen : ∀ ip, ∀ entry ∈ s.rl.entries ip, entry.limiter.time ≤ entry.lastSeen + delay

theorem Paced.init (hrps : 0 ≤ (newRateLimiter cfg).cfg.rps) :
    Paced (newRateLimiter cfg).cfg delay start (.init cfg start) where
  config := rfl
  follows _ := .init hrps
  seen := nofun

theorem Paced.allow (hburst : 0 ≤ cfg.burst) (hrps : 0 ≤ cfg.rps) (h : Paced cfg delay start s)
    (ip : String) {seen : ℚ} (hseen : s.clock ≤ seen) (hnow : seen ≤ now) (hdelay : now - seen ≤ delay) :
    Paced cfg delay start
      { rl := (s.rl.allow ip seen now).1
        clock := now
        log := s.log ++ [(ip, now, (s.rl.allow ip seen now).2)] } where
  config := h.config
  follows ip' := by
    by_cases hip : ip = ip'
    · subst hip
      have hlevel : (s.rl.limiterOf ip seen).level cfg.burst cfg.rps now =
          (Bucket.current cfg.burst ((s.rl.entries ip).map IpEntry.limiter) now).level
            cfg.burst cfg.rps now := by
        rw [RateLimiter.limiterOf, h.config]
        cases s.rl.entries ip with
        | none => exact (Bucket.level_new hrps hnow).trans (Bucket.level_new hrps le_rfl).symm
        | some entry => rfl
      have htake := (h.follows ip).take (Int.cast_nonneg hburst) hrps (hseen.trans hnow) hlevel
      simpa [RateLimiter.allow, LimiterRun.requestsOf, h.config] using htake
    · have htick := (h.follows ip').tick (hseen.trans hnow)
      simpa [RateLimiter.allow, LimiterRun.requestsOf, hip, update_of_ne (Ne.symm hip)]
  seen ip' entry hentry := by
    by_cases hip : ip = ip'
    · subst hip
      simp only [RateLimiter.allow, update_self, mem_some_iff] at hentry
      subst hentry
      rw [Bucket.time_take]
      linarith
    · simp only [RateLimiter.allow, update_of_ne (Ne.symm hip)] at hentry
      exact h.seen ip' entry hentry

theorem Paced.sweep (hrps : 0 ≤ cfg.rps) (hlong : (cfg.burst : ℚ) ≤ cfg.rps * (cfg.ttl - delay))
    (h : Paced cfg delay start s) (hnow : s.clock ≤ now) :
    Paced cfg delay start { s with rl := s.rl.sweep now, clock := now } where
  config := h.config
  follows ip := by
    have htick := (h.follows ip).tick hnow
    cases hentry : s.rl.entries ip with
    | none => simpa [RateLimiter.sweep, LimiterRun.requestsOf, hentry] using htick
    | some entry =>
      by_cases hidle : now - entry.lastSeen > s.rl.cfg.ttl
      · have hforget : Bucket.Follows cfg.burst cfg.rps start now none (s.requestsOf ip) := by
          refine htick.forget hrps fun b hb => ?_
          rw [hentry] at hb
          cases hb
          have hseen := h.seen ip entry hentry
          rw [h.config] at hidle
          exact hlong.trans (mul_le_mul_of_nonneg_left (by linarith) hrps)
        simpa [RateLimiter.sweep, LimiterRun.requestsOf, hentry, hidle, filter_some] using hforget
      · simpa [RateLimiter.sweep, LimiterRun.requestsOf, hentry, hidle, filter_some] using htick
  seen ip entry hentry := h.seen ip entry (mem_filter_iff.1 hentry).1

theorem Paced.step (hburst : 0 ≤ cfg.burst) (hrps : 0 ≤ cfg.rps)
    (hlong : (cfg.burst : ℚ) ≤ cfg.rps * (cfg.ttl - delay)) {e} (h : Paced cfg delay start s)
    (hprompt : s.prompt delay e) (hstep : s.step e = some s') : Paced cfg delay start s' := by
  cases e with
  | allow ip seen now =>
    obtain ⟨⟨hseen, hnow⟩, heq⟩ := ite_none_right_eq_some.1 hstep
    cases heq
    exact h.allow hburst hrps ip hseen hnow (of_decide_eq_true hprompt)
  | sweep now =>
    obtain ⟨hnow, heq⟩ := ite_none_right_eq_some.1 hstep
    cases heq
    exact h.sweep hrps hlong hnow

theorem Paced.limited (hburst : 0 ≤ cfg.burst) (hrps : 0 ≤ cfg.rps) (h : Paced cfg delay start s) :
    s.Limited := by
  intro ip a T hT
  rw [h.config]
  exact (h.follows ip).admittedWithin_le (Int.cast_nonneg hburst) hrps a hT

end Paced

theorem burst_pos (cfg : RateLimiterConfig) : 0 < (newRateLimiter cfg).cfg.burst := by
  show 0 < if cfg.burst ≤ 0 then defaultBurst else cfg.burst
  split_ifs with h
  · decide
  · exact not_le.1 h

theorem rps_pos (cfg : RateLimiterConfig) : 0 < (newRateLimiter cfg).cfg.rps := by
  show 0 < if cfg.rps ≤ 0 then defaultRPS else cfg.rps
  split_ifs with h
  · decide
  · exact not_le.1 h

/-- The requests of every address are limited if the two readings of a call are at most a delay
apart and a bucket fills up in the TTL less the delay. -/
theorem limited_of_prompt (cfg : RateLimiterConfig) (start : ℚ) {delay s}
    (hlong : ((newRateLimiter cfg).cfg.burst : ℚ) ≤
      (newRateLimiter cfg).cfg.rps * ((newRateLimiter cfg).cfg.ttl - delay))
    (hrun : Machine.Reaches LimiterRun.step (LimiterRun.prompt delay) (.init cfg start) s) :
    s.Limited := by
  have hburst := (burst_pos cfg).le
  have hrps := (rps_pos cfg).le
  have hpaced := hrun.keeps (.init hrps) (Paced.step hburst hrps hlong)
  exact hpaced.limited hburst hrps

/-! ## Eviction of empty buckets -/

section Drain

variable {s : LimiterRun} {t : ℚ}

theorem reaches_drain (ip : String) (k : ℕ) (hclock : s.clock ≤ t)
    (hlevel : (k : ℚ) ≤ (s.rl.limiterOf ip t).level s.rl.cfg.burst s.rl.cfg.rps t)
    (hseen : ∀ entry ∈ s.rl.entries ip, entry.lastSeen ≤ t) :
    ∃ s', Machine.Reaches LimiterRun.step (LimiterRun.prompt 0) s s' ∧ s'.clock ≤ t ∧
      s'.rl.cfg = s.rl.cfg ∧ s'.log = s.log ++ replicate k (ip, t, true) ∧
      ∀ entry ∈ s'.rl.entries ip, entry.lastSeen ≤ t := by
  induction k generalizing s with
  | zero => exact ⟨s, .refl, hclock, rfl, by simp, hseen⟩
  | succ k ih =>
    set b := s.rl.limiterOf ip t with hb
    set level := b.level s.rl.cfg.burst s.rl.cfg.rps t with hl
    have hfull : ¬ level < 1 := by
      push_cast at hlevel
      linarith
    have htake : b.take s.rl.cfg.burst s.rl.cfg.rps t = (⟨level - 1, t⟩, true) := by
      rw [Bucket.take, if_neg hfull]
    let s₁ : LimiterRun :=
      { rl := (s.rl.allow ip t t).1
        clock := t
        log := s.log ++ [(ip, t, (s.rl.allow ip t t).2)] }
    have hentry : s₁.rl.entries ip = some ⟨⟨level - 1, t⟩, t⟩ := by
      show Function.update s.rl.entries ip _ ip = _
      rw [update_self, htake]
    have hlog : s₁.log = s.log ++ [(ip, t, true)] := by
      show s.log ++ [(ip, t, (b.take s.rl.cfg.burst s.rl.cfg.rps t).2)] = _
      rw [htake]
    have hstep : s.step (.allow ip t t) = some s₁ := if_pos ⟨hclock, le_rfl⟩
    have hfirst : Machine.Reaches LimiterRun.step (LimiterRun.prompt 0) s s₁ :=
      .single ⟨.allow ip t t, by simp [LimiterRun.prompt], hstep⟩
    have hleft : (k : ℚ) ≤ (s₁.rl.limiterOf ip t).level s₁.rl.cfg.burst s₁.rl.cfg.rps t := by
      have hcap : level ≤ s.rl.cfg.burst := Bucket.level_le
      have hself : Bucket.level s.rl.cfg.burst s.rl.cfg.rps ⟨level - 1, t⟩ t = level - 1 :=
        Bucket.level_self ⟨level - 1, t⟩ (by simp only; linarith)
      rw [RateLimiter.limiterOf, hentry]
      show (k : ℚ) ≤ Bucket.level s.rl.cfg.burst s.rl.cfg.rps ⟨level - 1, t⟩ t
      push_cast at hlevel
      linarith
    have hseen₁ : ∀ entry ∈ s₁.rl.entries ip, entry.lastSeen ≤ t := by
      rw [hentry]
      rintro _ ⟨⟩
      exact le_rfl
    obtain ⟨s', hrest, hclock', hcfg, hlog', hseen'⟩ := ih le_rfl hleft hseen₁
    refine ⟨s', hfirst.trans hrest, hclock', hcfg, ?_, hseen'⟩
    rw [hlog', hlog, append_assoc]
    rfl

end Drain

theorem exists_two_bursts (cfg : RateLimiterConfig) (start : ℚ) {gap} (hgap : 0 ≤ gap)
    (httl : (newRateLimiter cfg).cfg.ttl < gap) (ip : String) :
    ∃ s, Machine.Reaches LimiterRun.step (LimiterRun.prompt 0) (.init cfg start) s ∧
      s.rl.cfg = (newRateLimiter cfg).cfg ∧
      s.log = replicate (newRateLimiter cfg).cfg.burst.toNat (ip, start, true) ++
        replicate (newRateLimiter cfg).cfg.burst.toNat (ip, start + gap, true) := by
  have hburst : ((newRateLimiter cfg).cfg.burst.toNat : ℚ) = (newRateLimiter cfg).cfg.burst := by
    exact_mod_cast Int.toNat_of_nonneg (burst_pos cfg).le
  have hrps := (rps_pos cfg).le
  obtain ⟨s₁, hrun₁, hclock₁, hcfg₁, hlog₁, hseen₁⟩ := reaches_drain (s := .init cfg start)
    (t := start) ip (newRateLimiter cfg).cfg.burst.toNat le_rfl
    (hburst.le.trans (Bucket.level_new hrps le_rfl).ge) nofun
  let s₂ : LimiterRun := { s₁ with rl := s₁.rl.sweep (start + gap), clock := start + gap }
  have hsweep : s₁.step (.sweep (start + gap)) = some s₂ := if_pos (by linarith)
  have hgone : s₂.rl.entries ip = none := by
    refine filter_eq_none_iff.2 fun entry hentry => ?_
    have hlast := hseen₁ entry hentry
    have hidle : s₁.rl.cfg.ttl < start + gap - entry.lastSeen := by
      rw [hcfg₁]
      refine httl.trans_le ?_
      linarith
    simp [hidle]
  have hlevel : ((newRateLimiter cfg).cfg.burst.toNat : ℚ) ≤
      (s₂.rl.limiterOf ip (start + gap)).level s₂.rl.cfg.burst s₂.rl.cfg.rps (start + gap) := by
    have hcfg₂ : s₂.rl.cfg = (newRateLimiter cfg).cfg := hcfg₁
    rw [RateLimiter.limiterOf, hgone, hcfg₂]
    exact hburst.le.trans (Bucket.level_new hrps le_rfl).ge
  obtain ⟨s₃, hrun₃, -, hcfg₃, hlog₃, -⟩ := reaches_drain (s := s₂) ip
    (newRateLimiter cfg).cfg.burst.toNat le_rfl hlevel (by simp [hgone])
  refine ⟨s₃, (hrun₁.tail ⟨_, rfl, hsweep⟩).trans hrun₃, hcfg₃.trans hcfg₁, ?_⟩
  rw [hlog₃]
  exact congrArg (· ++ _) (hlog₁.trans (nil_append _))

/-- The requests of every address are limited in all schedules of calls and sweeps exactly if a
bucket fills up in the TTL. -/
theorem rateLimiter_limited_iff (cfg : RateLimiterConfig) (start : ℚ) :
    (∀ s, Machine.Reaches LimiterRun.step (LimiterRun.prompt 0) (.init cfg start) s → s.Limited) ↔
      ((newRateLimiter cfg).cfg.burst : ℚ) ≤
        (newRateLimiter cfg).cfg.rps * (newRateLimiter cfg).cfg.ttl := by
  constructor
  · intro hlimited
    by_contra hshort
    have hrps := rps_pos cfg
    have hburst : (0 : ℚ) < (newRateLimiter cfg).cfg.burst := Int.cast_pos.2 (burst_pos cfg)
    -- Any time after the TTL at which a bucket is not yet full.
    have hroom := max_lt (div_pos hburst hrps) ((lt_div_iff₀' hrps).2 (not_le.1 hshort))
    obtain ⟨gap, httl, hgap⟩ := exists_between hroom
    rw [lt_div_iff₀' hrps] at hgap
    obtain ⟨hpos, httl⟩ := max_lt_iff.1 httl
    obtain ⟨s, hrun, hcfg, hlog⟩ := exists_two_bursts cfg start hpos.le httl ""
    have hle := hlimited s hrun "" start gap hpos.le
    have hcount : Bucket.admittedWithin (s.requestsOf "") start (start + gap) =
        (newRateLimiter cfg).cfg.burst.toNat + (newRateLimiter cfg).cfg.burst.toNat := by
      simp [LimiterRun.requestsOf, hlog, Bucket.admittedWithin,
        countP_replicate, hpos.le]
    have hn : ((newRateLimiter cfg).cfg.burst.toNat : ℚ) = (newRateLimiter cfg).cfg.burst := by
      exact_mod_cast Int.toNat_of_nonneg (burst_pos cfg).le
    rw [hcount, hcfg] at hle
    push_cast at hle
    linarith
  · intro hlong s hrun
    refine limited_of_prompt cfg start ?_ hrun
    rwa [sub_zero]

def slowConfig : RateLimiterConfig where
  enabled := true
  rps := 1 / 1000
  burst := 1
  ttlMinutes := 10
  trustProxy := false

def slowSchedule : List LimiterEvent := [.allow "10.0.0.1" 0 0, .sweep 900, .allow "10.0.0.1" 900 900]

/-- Two requests are admitted within 900 seconds. -/
theorem slowConfig_not_limited :
    ∃ s, Machine.Reaches LimiterRun.step (LimiterRun.prompt 0) (.init slowConfig 0) s ∧ ¬ s.Limited := by
  have hrun : (Machine.replay LimiterRun.step (LimiterRun.prompt 0) slowSchedule
      (.init slowConfig 0)).map (fun s => (s.requestsOf "10.0.0.1", s.rl.cfg.burst, s.rl.cfg.rps)) =
        some ([(0, true), (900, true)], 1, 1 / 1000) := by decide +kernel
  obtain ⟨s, hs, hshow⟩ := map_eq_some_iff.1 hrun
  simp only [Prod.mk.injEq] at hshow
  obtain ⟨hlog, hburst, hrps⟩ := hshow
  refine ⟨s, Machine.reaches_replay slowSchedule hs, fun hlimited => ?_⟩
  have hle := hlimited "10.0.0.1" 0 900 (by norm_num)
  rw [hlog, hburst, hrps] at hle
  revert hle
  decide +kernel

end Uncworks.Server
