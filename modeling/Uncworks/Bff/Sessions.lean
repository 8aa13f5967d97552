import Mathlib.Tactic.Linarith
import Uncworks.Machine.Runs

/-!
# Sessions and CSRF tokens

`SessionMiddleware` gives a browser a cookie, and `CSRFMiddleware` inside of it returns a token
with every response and asks for it in requests that change something; `PATCH` is not checked.  A
request without a cookie is given a token that is kept nowhere, and one whose session was swept a
new cookie that its token does not belong to.

Each critical section is a step; the requests of the browser can overlap.  Times are in seconds.
-/

namespace Uncworks

open List Option

/-! ## Cookies -/

/-- HMAC-SHA256 with the secret of the server, and `encoding/hex`. -/
structure CookieLib where
  mac : String → List UInt8
  hexEncode : List UInt8 → String
  hexDecode : String → Option (List UInt8)

def signSession (lib : CookieLib) (sid : String) : String := sid ++ "." ++ lib.hexEncode (lib.mac sid)

def cutLastDot (value : String) : Option (String × String) :=
  match value.toList.reverse.span (· ≠ '.') with
  | (_, []) => none
  | (after, _ :: before) => some (String.ofList before.reverse, String.ofList after.reverse)

def verifySession (lib : CookieLib) (cookieValue : String) : Option String := do
  let (sid, gotMACHex) ← cutLastDot cookieValue
  let gotMAC ← lib.hexDecode gotMACHex
  if gotMAC = lib.mac sid then some sid else none

/-! ## Requests -/

inductive HttpMethod where
  | get
  | head
  | options
  | post
  | put
  | patch
  | delete
  deriving DecidableEq

def HttpMethod.stateChanging : HttpMethod → Bool
  | .post | .put | .patch | .delete => true
  | _ => false

def HttpMethod.verified : HttpMethod → Bool
  | .post | .put | .delete => true
  | _ => false

structure Returned where
  token : String
  /-- The cookie that the request carried; empty without one. -/
  sessionID : String
  time : ℚ

structure BrowserRequest where
  method : HttpMethod
  /-- It has an `Authorization` header. -/
  authorization : Bool
  /-- Its `X-CSRF-Token` header; empty without one. -/
  token : String
  cookie : Option String
  /-- What responses had returned when it was sent. -/
  known : List Returned

def BrowserRequest.sessionID (r : BrowserRequest) : String := r.cookie.getD ""

/-- The request changes something, and is not authenticated otherwise. -/
def BrowserRequest.guarded (r : BrowserRequest) : Bool := r.method.stateChanging && !r.authorization

inductive RequestPhase where
  | arrived
  /-- `SessionMiddleware` has found no session. -/
  | issuing
  /-- It is passed on to `CSRFMiddleware`. -/
  | admitted
  /-- `CSRFMiddleware` has found no token. -/
  | generating
  | holding (token : String)
  /-- The response is on its way. -/
  | answered (token : Option String)
  deriving DecidableEq

structure Flight where
  request : BrowserRequest
  setCookie : Option String
  phase : RequestPhase

def Flight.token (f : Flight) : Option String :=
  match f.phase with
  | .holding token => some token
  | .answered token => token
  | _ => none

structure AnsweredRequest where
  request : BrowserRequest
  time : ℚ
  reached : Bool

/-! ## The two middlewares and the browser -/

structure CsrfEntry where
  token : String
  createdAt : ℚ

structure BffState where
  clock : ℚ
  /-- When the sessions were created. -/
  sessions : String → Option ℚ
  tokens : String → Option CsrfEntry
  cookie : Option String
  received : List Returned
  flights : List Flight
  answered : List AnsweredRequest
  /-- The session ids and the tokens that were generated. -/
  sids : List String
  generated : List String

inductive BffEvent where
  | tick (now : ℚ)
  | send (method : HttpMethod) (authorization : Bool) (token : String)
  | lookupSession (i : ℕ)
  | issueSession (i : ℕ) (sid : String)
  | lookupToken (i : ℕ)
  | generateToken (i : ℕ) (token : String)
  | verify (i : ℕ)
  | receive (i : ℕ)
  | sweepSessions (now : ℚ)
  | sweepTokens (now : ℚ)

def csrfTTL : ℚ := 24 * 60 * 60

namespace BffState

def init (start : ℚ) : BffState where
  clock := start
  sessions _ := none
  tokens _ := none
  cookie := none
  received := []
  flights := []
  answered := []
  sids := []
  generated := []

def recent (s : BffState) (r : Returned) : Bool := s.clock ≤ r.time + csrfTTL

def sessionExists (lib : CookieLib) (s : BffState) (r : BrowserRequest) : Bool :=
  match r.cookie with
  | none => false
  | some value =>
    if value = "" then false
    else
      match verifySession lib value with
      | some sid => (s.sessions sid).isSome
      | none => false

section

variable (s : BffState) (i : ℕ) (f : Flight)

def put : BffState := { s with flights := s.flights.set i f }

def lookupToken : RequestPhase :=
  match s.tokens f.request.sessionID with
  | some entry => if f.request.sessionID = "" then .generating else .holding entry.token
  | none => .generating

def storeToken (token : String) : BffState :=
  { s with
    generated := token :: s.generated
    tokens :=
      if f.request.sessionID = "" then s.tokens
      else Function.update s.tokens f.request.sessionID (some { token, createdAt := s.clock }) }

def answer (token : Option String) (reached : Bool) : BffState :=
  { s.put i { f with phase := .answered token } with
    answered := s.answered ++ [{ request := f.request, time := s.clock, reached }] }

def receive (token : Option String) : BffState :=
  { s with
    flights := s.flights.eraseIdx i
    cookie := f.setCookie <|> s.cookie
    received :=
      s.received ++ (token.map fun token =>
        { token, sessionID := f.request.sessionID, time := s.clock }).toList }

end

variable (lib : CookieLib) (s : BffState)

def stepFlight (i : ℕ) (f : Flight) : BffEvent → Option BffState
  | .lookupSession _ =>
    if f.phase = .arrived then
      some (s.put i { f with phase := if s.sessionExists lib f.request then .admitted else .issuing })
    else none
  | .issueSession _ sid =>
    if f.phase = .issuing ∧ sid ∉ s.sids then
      some { s.put i { f with setCookie := some (signSession lib sid), phase := .admitted } with
        sids := sid :: s.sids
        sessions := Function.update s.sessions sid (some s.clock) }
    else none
  | .lookupToken _ =>
    if f.phase = .admitted ∧ ¬ f.request.authorization then
      some (s.put i { f with phase := s.lookupToken f })
    else none
  | .generateToken _ token =>
    -- A token is random: it is none that was generated, or sent, before.
    if f.phase = .generating ∧ token ≠ "" ∧ token ∉ s.generated ∧
        ∀ f ∈ s.flights, f.request.token ≠ token then
      some ((s.storeToken f token).put i { f with phase := .holding token })
    else none
  | .verify _ =>
    match f.phase with
    | .admitted => if f.request.authorization then some (s.answer i f none true) else none
    | .holding token =>
      some (s.answer i f (some token)
        (!f.request.method.verified || (f.request.token ≠ "" && f.request.token = token)))
    | _ => none
  | .receive _ =>
    match f.phase with
    | .answered token => some (s.receive i f token)
    | _ => none
  | _ => none

def step (e : BffEvent) : Option BffState :=
  match e with
  | .tick now => if s.clock ≤ now then some { s with clock := now } else none
  | .send method authorization token =>
    -- A token that was generated is known only from a response.
    if token ∈ s.generated → ∃ r ∈ s.received, r.token = token then
      some { s with
        flights := s.flights ++
          [⟨⟨method, authorization, token, s.cookie, s.received⟩, none, .arrived⟩] }
    else none
  | .sweepSessions now =>
    if now ≤ s.clock then
      some { s with
        sessions := fun sid => (s.sessions sid).filter fun createdAt => now - createdAt ≤ csrfTTL }
    else none
  | .sweepTokens now =>
    if now ≤ s.clock then
      some { s with
        tokens := fun sid => (s.tokens sid).filter fun entry => now - entry.createdAt ≤ csrfTTL }
    else none
  | .lookupSession i | .issueSession i _ | .lookupToken i | .generateToken i _ | .verify i
  | .receive i => s.flights[i]?.bind fun f => s.stepFlight lib i f e

def young (now : ℚ) (sessionID : String) : Bool :=
  (s.tokens sessionID).all fun entry => now - entry.createdAt ≤ csrfTTL

/-- A request that changes something is not a `PATCH`, and its token, if it is younger than 24
hours, was returned to a request with the cookie of the browser; a token is stored where there is
none; and a sweep deletes no such young token, nor one that a request has got. -/
def careful : BffEvent → Bool
  | .send method authorization token =>
    (method = .patch → authorization) ∧
      (method.stateChanging → ¬ authorization →
        ∀ r ∈ s.received, r.token = token → s.recent r →
          r.sessionID ≠ "" ∧ s.cookie = some r.sessionID)
  | .generateToken i _ =>
    ∀ f ∈ s.flights[i]?, f.request.sessionID ≠ "" → (s.tokens f.request.sessionID).isNone
  | .sweepTokens now =>
    (∀ r ∈ s.received, s.recent r → s.young now r.sessionID) ∧
      ∀ f ∈ s.flights, f.token.isSome → s.young now f.request.sessionID
  | _ => true

end BffState

/-! ## What the tokens are for -/

/-- A request that changes something reaches the handler with a token that was returned in the last
24 hours; without one, only if it is authenticated otherwise. -/
structure Protected (a : AnsweredRequest) : Prop where
  accepted : a.request.method.stateChanging →
    ∀ r ∈ a.request.known, r.token = a.request.token → a.time ≤ r.time + csrfTTL → a.reached
  guarded : a.request.method.stateChanging → ¬ a.request.authorization → a.reached →
    ∃ r ∈ a.request.known, r.token = a.request.token

instance : DecidablePred Protected := fun _ => decidable_of_iff (_ ∧ _)
  ⟨fun h => ⟨h.1, h.2⟩, fun h => ⟨h.accepted, h.guarded⟩⟩

/-! ## Runs -/

section Runs

variable {lib : CookieLib} {s s' : BffState} {f f' : Flight} {i : ℕ}

def BffState.Stored (s : BffState) (sessionID token : String) : Prop :=
  ∃ entry, s.tokens sessionID = some entry ∧ entry.token = token

structure FlightOk (s : BffState) (f : Flight) : Prop where
  known : ∀ r ∈ f.request.known, r ∈ s.received
  secret : f.request.token ∈ s.generated → ∃ r ∈ f.request.known, r.token = f.request.token
  unpatched : f.request.method = .patch → f.request.authorization
  checked : f.phase = .generating ∨ (∃ t, f.phase = .holding t) → ¬ f.request.authorization
  bound : f.request.guarded → ∀ r ∈ f.request.known, r.token = f.request.token → s.recent r →
    r.sessionID ≠ "" ∧ f.request.sessionID = r.sessionID
  held : ∀ t, f.token = some t →
    t ∈ s.generated ∧ (f.request.sessionID ≠ "" → s.Stored f.request.sessionID t)
  missed : f.request.guarded → f.phase = .generating →
    ∀ r ∈ f.request.known, r.token = f.request.token → ¬ s.recent r
  matched : f.request.guarded → ∀ t, f.phase = .holding t →
    ∀ r ∈ f.request.known, r.token = f.request.token → s.recent r → t = f.request.token

/-- The tokens that were returned in the last 24 hours, or will be, are the ones that are stored. -/
structure TokensKept (s : BffState) : Prop where
  entries : ∀ c entry, s.tokens c = some entry → entry.token ∈ s.generated
  nonempty : "" ∉ s.generated
  received : ∀ r ∈ s.received, s.recent r → r.sessionID ≠ "" → s.Stored r.sessionID r.token
  flights : ∀ f ∈ s.flights, FlightOk s f
  answered : ∀ a ∈ s.answered, Protected a

theorem recent_of_le {r} (hclock : s.clock ≤ s'.clock) (h : s'.recent r) : s.recent r :=
  decide_eq_true (hclock.trans (of_decide_eq_true h))

namespace FlightOk

theorem frame (h : FlightOk s f) (hclock : s.clock ≤ s'.clock)
    (hreceived : ∀ r ∈ s.received, r ∈ s'.received) (hgenerated : ∀ t ∈ s.generated, t ∈ s'.generated)
    (hfresh : f.request.token ∈ s'.generated → f.request.token ∈ s.generated)
    (hstored : ∀ t, f.token = some t → s.Stored f.request.sessionID t →
      s'.Stored f.request.sessionID t) : FlightOk s' f where
  known r hr := hreceived r (h.known r hr)
  secret hmem := h.secret (hfresh hmem)
  unpatched := h.unpatched
  checked := h.checked
  bound hguarded r hr heq hrecent := h.bound hguarded r hr heq (recent_of_le hclock hrecent)
  held t ht := ⟨hgenerated t (h.held t ht).1, fun hne => hstored t ht ((h.held t ht).2 hne)⟩
  missed hguarded hphase r hr heq hrecent :=
    h.missed hguarded hphase r hr heq (recent_of_le hclock hrecent)
  matched hguarded t hphase r hr heq hrecent :=
    h.matched hguarded t hphase r hr heq (recent_of_le hclock hrecent)

theorem goOn (h : FlightOk s f) (hrequest : f'.request = f.request) (htoken : f'.token = none)
    (hphase : f'.phase ≠ .generating) : FlightOk s f' where
  known := hrequest ▸ h.known
  secret := hrequest ▸ h.secret
  unpatched := hrequest ▸ h.unpatched
  checked hlooked := by
    obtain hgenerating | ⟨t, hholding⟩ := hlooked
    · exact absurd hgenerating hphase
    · simp [Flight.token, hholding] at htoken
  bound := hrequest ▸ h.bound
  held t ht := by rw [htoken] at ht; cases ht
  missed _ hgenerating := absurd hgenerating hphase
  matched _ t hholding := by simp [Flight.token, hholding] at htoken

end FlightOk

namespace TokensKept

theorem init (start : ℚ) : TokensKept (.init start) where
  entries _ _ hentry := nomatch hentry
  nonempty := not_mem_nil
  received _ hr := absurd hr not_mem_nil
  flights _ hf := absurd hf not_mem_nil
  answered _ ha := absurd ha not_mem_nil

theorem of_eq (h : TokensKept s) (hclock : s'.clock = s.clock) (htokens : s'.tokens = s.tokens)
    (hreceived : s'.received = s.received) (hgenerated : s'.generated = s.generated)
    (hflights : ∀ f ∈ s'.flights, FlightOk s f) (hanswered : ∀ a ∈ s'.answered, Protected a) :
    TokensKept s' := by
  have hstored : ∀ c t, s.Stored c t → s'.Stored c t := by
    rintro c t ⟨entry, hentry, ht⟩
    exact ⟨entry, htokens ▸ hentry, ht⟩
  exact {
    entries := htokens ▸ hgenerated ▸ h.entries
    nonempty := hgenerated ▸ h.nonempty
    received := fun r hr hrecent hne =>
      hstored _ _ (h.received r (hreceived ▸ hr) (recent_of_le hclock.ge hrecent) hne)
    flights := fun f hf => (hflights f hf).frame hclock.ge (fun _ => hreceived ▸ id)
      (fun _ => hgenerated ▸ id) (hgenerated ▸ id) fun t _ => hstored _ t
    answered := hanswered }

theorem flightOk_put (h : TokensKept s) (hf : FlightOk s f) :
    ∀ g ∈ (s.put i f).flights, FlightOk s g :=
  fun g hg => (mem_or_eq_of_mem_set hg).elim (h.flights g) (· ▸ hf)

theorem put (h : TokensKept s) (hf : FlightOk s f) : TokensKept (s.put i f) :=
  h.of_eq rfl rfl rfl rfl (h.flightOk_put hf) h.answered

theorem tick (h : TokensKept s) {now} (hnow : s.clock ≤ now) :
    TokensKept { s with clock := now } where
  entries := h.entries
  nonempty := h.nonempty
  received r hr hrecent := h.received r hr (recent_of_le hnow hrecent)
  flights f hf := (h.flights f hf).frame hnow (fun _ => id) (fun _ => id) id fun _ _ => id
  answered := h.answered

theorem send (h : TokensKept s) {method authorization token}
    (hcareful : s.careful (.send method authorization token))
    (hsecret : token ∈ s.generated → ∃ r ∈ s.received, r.token = token) :
    TokensKept { s with
      flights := s.flights ++
        [⟨⟨method, authorization, token, s.cookie, s.received⟩, none, .arrived⟩] } := by
  refine h.of_eq rfl rfl rfl rfl (fun f hf => ?_) h.answered
  obtain hf | hf := mem_append.1 hf
  · exact h.flights f hf
  · obtain rfl := mem_singleton.1 hf
    obtain ⟨hpatch, hbound⟩ := of_decide_eq_true hcareful
    refine ⟨fun _ => id, hsecret, hpatch, by simp, fun hguarded r hr heq hrecent => ?_, nofun, nofun,
      nofun⟩
    obtain ⟨hmethod, hauth⟩ := Bool.and_eq_true_iff.1 hguarded
    obtain ⟨hne, hcookie⟩ := hbound hmethod (by simpa using hauth) r hr heq hrecent
    exact ⟨hne, by simp [BrowserRequest.sessionID, hcookie]⟩

theorem stored_sweep {now c t} (hyoung : s.young now c) (h : s.Stored c t) :
    BffState.Stored
      { s with tokens := fun c => (s.tokens c).filter fun entry => now - entry.createdAt ≤ csrfTTL }
      c t := by
  obtain ⟨entry, hentry, rfl⟩ := h
  rw [BffState.young] at hyoung
  exact ⟨entry, by simpa [hentry] using hyoung, rfl⟩

theorem sweepTokens (h : TokensKept s) {now} (hcareful : s.careful (.sweepTokens now)) :
    TokensKept { s with
      tokens := fun c => (s.tokens c).filter fun entry => now - entry.createdAt ≤ csrfTTL } := by
  obtain ⟨hreceived, hflights⟩ := of_decide_eq_true hcareful
  exact {
    entries := fun c entry hentry => h.entries c entry (filter_eq_some_iff.1 hentry).1
    nonempty := h.nonempty
    received := fun r hr hrecent hne =>
      stored_sweep (hreceived r hr hrecent) (h.received r hr hrecent hne)
    flights := fun f hf => (h.flights f hf).frame le_rfl (fun _ => id) (fun _ => id) id fun t ht =>
      stored_sweep (hflights f hf (ht ▸ rfl))
    answered := h.answered }

theorem lookupToken (h : TokensKept s) (hf : FlightOk s f) (hguarded : f.request.guarded) {r}
    (hr : r ∈ f.request.known) (heq : r.token = f.request.token) (hrecent : s.recent r) :
    s.lookupToken f = .holding f.request.token := by
  obtain ⟨hne, hsession⟩ := hf.bound hguarded r hr heq hrecent
  obtain ⟨entry, hentry, htoken⟩ := h.received r (hf.known r hr) hrecent hne
  rw [BffState.lookupToken, hsession, hentry]
  simp [hne, htoken, heq]

theorem flightOk_lookupToken (h : TokensKept s) (hf : FlightOk s f) (hauth : ¬ f.request.authorization) :
    FlightOk s { f with phase := s.lookupToken f } where
  known := hf.known
  secret := hf.secret
  unpatched := hf.unpatched
  checked _ := hauth
  bound := hf.bound
  held t ht := by
    cases hentry : s.tokens f.request.sessionID with
    | none => simp [Flight.token, BffState.lookupToken, hentry] at ht
    | some entry =>
      by_cases hempty : f.request.sessionID = ""
      · rw [hempty] at hentry
        simp [Flight.token, BffState.lookupToken, hempty, hentry] at ht
      · have ht : entry.token = t := by
          simpa [Flight.token, BffState.lookupToken, hempty, hentry] using ht
        exact ⟨ht ▸ h.entries _ entry hentry, fun _ => ⟨entry, hentry, ht⟩⟩
  missed hguarded hphase r hr heq hrecent := by
    cases hphase.symm.trans (h.lookupToken hf hguarded hr heq hrecent)
  matched hguarded t hphase r hr heq hrecent := by
    cases hphase.symm.trans (h.lookupToken hf hguarded hr heq hrecent)
    rfl

theorem stored_storeToken {token c t}
    (hnone : f.request.sessionID ≠ "" → (s.tokens f.request.sessionID).isNone) (h : s.Stored c t) :
    (s.storeToken f token).Stored c t := by
  obtain ⟨entry, hentry, rfl⟩ := h
  refine ⟨entry, ?_, rfl⟩
  rw [BffState.storeToken]
  split_ifs with hempty
  · exact hentry
  · have hne : c ≠ f.request.sessionID := by
      rintro rfl
      simpa [hentry] using hnone hempty
    simpa [Function.update_of_ne hne] using hentry

theorem storeToken (h : TokensKept s) {token} (hne : token ≠ "")
    (hfresh : ∀ f ∈ s.flights, f.request.token ≠ token)
    (hnone : f.request.sessionID ≠ "" → (s.tokens f.request.sessionID).isNone) :
    TokensKept (s.storeToken f token) where
  entries c entry hentry := by
    simp only [BffState.storeToken] at hentry ⊢
    split_ifs at hentry
    · exact mem_cons_of_mem _ (h.entries c entry hentry)
    · rcases eq_or_ne c f.request.sessionID with rfl | hc
      · rw [Function.update_self] at hentry
        cases hentry
        exact mem_cons_self
      · rw [Function.update_of_ne hc] at hentry
        exact mem_cons_of_mem _ (h.entries c entry hentry)
  nonempty hmem := (mem_cons.1 hmem).elim hne.symm h.nonempty
  received r hr hrecent hr' := stored_storeToken hnone (h.received r hr hrecent hr')
  flights g hg := (h.flights g hg).frame le_rfl (fun _ => id) (fun _ => mem_cons_of_mem _)
    (fun hmem => (mem_cons.1 hmem).resolve_left (hfresh g hg)) fun _ _ => stored_storeToken hnone
  answered := h.answered

theorem flightOk_holding {token} (h : FlightOk (s.storeToken f token) f)
    (hphase : f.phase = .generating) :
    FlightOk (s.storeToken f token) { f with phase := .holding token } where
  known := h.known
  secret := h.secret
  unpatched := h.unpatched
  checked _ := h.checked (.inl hphase)
  bound := h.bound
  held t ht := by
    cases ht
    refine ⟨mem_cons_self, fun hne => ⟨{ token, createdAt := s.clock }, ?_, rfl⟩⟩
    simp [BffState.storeToken, hne]
  missed _ hgenerating := nomatch hgenerating
  matched hguarded t _ r hr heq hrecent := absurd hrecent (h.missed hguarded hphase r hr heq)

theorem answer (h : TokensKept s) (hf : FlightOk s f) {token reached} (htoken : token = f.token)
    (hprotected : Protected { request := f.request, time := s.clock, reached }) :
    TokensKept (s.answer i f token reached) := by
  subst htoken
  have hf' : FlightOk s { f with phase := .answered f.token } :=
    ⟨hf.known, hf.secret, hf.unpatched, by simp, hf.bound, hf.held, nofun, nofun⟩
  refine h.of_eq rfl rfl rfl rfl (h.flightOk_put hf') fun a ha => ?_
  exact (mem_append.1 ha).elim (h.answered a) fun ha => mem_singleton.1 ha ▸ hprotected

theorem protected_authorization {r time} (hauth : r.authorization) :
    Protected { request := r, time, reached := true } :=
  ⟨fun _ _ _ _ _ => rfl, fun _ hnot => absurd hauth hnot⟩

theorem protected_holding (h : TokensKept s) (hf : FlightOk s f) {token}
    (hphase : f.phase = .holding token) :
    Protected
      { request := f.request
        time := s.clock
        reached := !f.request.method.verified ||
          (f.request.token ≠ "" && f.request.token = token) } := by
  have hauth := hf.checked (.inr ⟨token, hphase⟩)
  have hmem := (hf.held token (by rw [Flight.token, hphase])).1
  have hguarded : f.request.method.stateChanging → f.request.guarded := by
    intro hmethod
    simp [BrowserRequest.guarded, hmethod, hauth]
  constructor
  · intro hmethod r hr heq htime
    have htoken := hf.matched (hguarded hmethod) token hphase r hr heq (decide_eq_true htime)
    have hne : f.request.token ≠ "" := fun hempty => h.nonempty (hempty ▸ htoken ▸ hmem)
    simp [htoken, hne]
  · intro hmethod _ hreached
    have hverified : f.request.method.verified := by
      have hpatch : f.request.method ≠ .patch := fun heq => hauth (hf.unpatched heq)
      cases hm : f.request.method <;> simp_all [HttpMethod.stateChanging, HttpMethod.verified]
    have htoken : f.request.token = token := by
      simp only [hverified, Bool.not_true, Bool.false_or, Bool.and_eq_true,
        decide_eq_true_eq] at hreached
      exact hreached.2
    exact hf.secret (htoken ▸ hmem)

theorem receive (h : TokensKept s) (hf : FlightOk s f) {token}
    (hphase : f.phase = .answered token) : TokensKept (s.receive i f token) where
  entries := h.entries
  nonempty := h.nonempty
  received r hr hrecent hne := by
    obtain hr | hr := mem_append.1 hr
    · exact h.received r hr hrecent hne
    · obtain ⟨t, rfl, rfl⟩ := map_eq_some_iff.1 (mem_toList.1 hr)
      exact (hf.held t (by rw [Flight.token, hphase])).2 hne
  flights g hg := (h.flights g ((eraseIdx_sublist _ _).subset hg)).frame le_rfl
    (fun _ => mem_append_left _) (fun _ => id) id fun _ _ => id
  answered := h.answered

theorem stepFlight (h : TokensKept s) {e} (hget : s.flights[i]? = some f)
    (hgenerate : ∀ j token, e = .generateToken j token →
      f.request.sessionID ≠ "" → (s.tokens f.request.sessionID).isNone)
    (hstep : s.stepFlight lib i f e = some s') : TokensKept s' := by
  have hmem := mem_of_getElem? hget
  have hf := h.flights f hmem
  cases e with
  | lookupSession =>
    obtain ⟨hphase, heq⟩ := ite_none_right_eq_some.1 hstep
    cases heq
    refine h.put (hf.goOn rfl ?_ ?_) <;> split_ifs <;> simp [Flight.token]
  | issueSession _ sid =>
    obtain ⟨hphase, heq⟩ := ite_none_right_eq_some.1 hstep
    cases heq
    have hissued : FlightOk s ⟨f.request, some (signSession lib sid), .admitted⟩ :=
      hf.goOn rfl rfl nofun
    exact h.of_eq rfl rfl rfl rfl (h.flightOk_put hissued) h.answered
  | lookupToken =>
    obtain ⟨⟨-, hauth⟩, heq⟩ := ite_none_right_eq_some.1 hstep
    cases heq
    exact h.put (h.flightOk_lookupToken hf hauth)
  | generateToken j token =>
    obtain ⟨⟨hphase, hne, -, hfresh⟩, heq⟩ := ite_none_right_eq_some.1 hstep
    cases heq
    have hstore := h.storeToken hne hfresh (hgenerate j token rfl)
    exact hstore.put (flightOk_holding (hstore.flights f hmem) hphase)
  | verify =>
    simp only [BffState.stepFlight] at hstep
    split at hstep
    · rename_i hphase
      obtain ⟨hauth, heq⟩ := ite_none_right_eq_some.1 hstep
      cases heq
      exact h.answer hf (by rw [Flight.token, hphase]) (protected_authorization hauth)
    · rename_i token hphase
      cases hstep
      exact h.answer hf (by rw [Flight.token, hphase]) (h.protected_holding hf hphase)
    · cases hstep
  | receive =>
    simp only [BffState.stepFlight] at hstep
    split at hstep
    · rename_i token hphase
      cases hstep
      exact h.receive hf hphase
    · cases hstep
  | tick | send | sweepSessions | sweepTokens => cases hstep

theorem step (h : TokensKept s) {e} (hcareful : s.careful e) (hstep : s.step lib e = some s') :
    TokensKept s' := by
  cases e with
  | tick now =>
    obtain ⟨hnow, heq⟩ := ite_none_right_eq_some.1 hstep
    cases heq
    exact h.tick hnow
  | send method authorization token =>
    obtain ⟨hsecret, heq⟩ := ite_none_right_eq_some.1 hstep
    cases heq
    exact h.send hcareful hsecret
  | sweepSessions now =>
    obtain ⟨-, heq⟩ := ite_none_right_eq_some.1 hstep
    cases heq
    exact h.of_eq rfl rfl rfl rfl h.flights h.answered
  | sweepTokens now =>
    obtain ⟨-, heq⟩ := ite_none_right_eq_some.1 hstep
    cases heq
    exact h.sweepTokens hcareful
  | lookupSession i | issueSession i | lookupToken i | verify i | receive i =>
    obtain ⟨f, hget, hflight⟩ := bind_eq_some_iff.1 hstep
    exact h.stepFlight hget (fun _ _ heq => by cases heq) hflight
  | generateToken i token =>
    obtain ⟨f, hget, hflight⟩ := bind_eq_some_iff.1 hstep
    exact h.stepFlight hget (fun _ _ _ => of_decide_eq_true hcareful f hget) hflight

end TokensKept

/-- In every careful run every request is protected. -/
theorem protected_of_careful (lib : CookieLib) (start : ℚ)
    (hrun : Machine.Reaches (BffState.step lib) BffState.careful (.init start) s) :
    ∀ a ∈ s.answered, Protected a := by
  have hkept : TokensKept s := hrun.keeps (.init start) fun h => h.step
  exact hkept.answered

end Runs

def plainCookies : CookieLib where
  mac _ := [0xab]
  hexEncode _ := "ab"
  hexDecode text := if text = "ab" then some [0xab] else none

def firstVisit (method : HttpMethod) : List BffEvent :=
  [.send method false "", .lookupSession 0, .issueSession 0 "s1", .lookupToken 0, .generateToken 0 "t1",
    .verify 0, .receive 0]

def secondToken : List BffEvent :=
  firstVisit .get ++
    [.send .get false "", .lookupSession 0, .lookupToken 0, .generateToken 0 "t2", .verify 0, .receive 0,
      .send .post false "t2", .lookupSession 0, .lookupToken 0, .verify 0]

theorem protected_of_careful_secondToken :
    ∃ s, Machine.Reaches (BffState.step plainCookies) BffState.careful (.init 0) s ∧
      (∃ a ∈ s.answered, a.request.method = .post ∧ a.reached) ∧ ∀ a ∈ s.answered, Protected a := by
  have hrun : (Machine.replay (BffState.step plainCookies) BffState.careful secondToken
      (.init 0)).any fun s => s.answered.any fun a => a.request.method = .post && a.reached := by
    decide +kernel
  obtain ⟨s, hs, hpost⟩ := Machine.exists_of_replay secondToken hrun
  exact ⟨s, hs, by simpa using hpost, protected_of_careful plainCookies 0 hs⟩

def firstToken : List BffEvent :=
  firstVisit .get ++
    [.send .post false "t1", .lookupSession 0, .lookupToken 0, .generateToken 0 "t2", .verify 0]

/-- The token of the first response is not accepted, and a `PATCH` without a token is. -/
theorem csrf_broken :
    (∃ s, Machine.Reaches (BffState.step plainCookies) Machine.always (.init 0) s ∧
      ∃ a ∈ s.answered, a.request.method = .post ∧ ¬ Protected a) ∧
    ∃ s, Machine.Reaches (BffState.step plainCookies) Machine.always (.init 0) s ∧
      ∃ a ∈ s.answered, a.request.method = .patch ∧ ¬ Protected a := by
  have hreplay (events : List BffEvent) {method} (h : (Machine.replay (BffState.step plainCookies)
      Machine.always events (.init 0)).any fun s =>
        s.answered.any fun a => a.request.method = method ∧ ¬ Protected a) :
      ∃ s, Machine.Reaches (BffState.step plainCookies) Machine.always (.init 0) s ∧
        ∃ a ∈ s.answered, a.request.method = method ∧ ¬ Protected a := by
    simpa using Machine.exists_of_replay events h
  exact ⟨hreplay firstToken (by decide +kernel), hreplay (firstVisit .patch) (by decide +kernel)⟩

end Uncworks
