import Uncworks.Go.Strings
import Uncworks.Net.Addresses
import Uncworks.Server.RateLimit

/-!
# The key of the rate limit

A request is limited by the address it comes from: the first one that a trusted proxy has
forwarded, or the remote address.  `stripPort` takes the port away with a search from the end of
the text, which stops at the first colon or closing bracket.
-/

namespace Uncworks.Server

open List

open Net (AddrText Port)

/-- A request: the value of `X-Forwarded-For`, which is empty if there is none, and the remote
address. -/
structure Request where
  forwardedFor : String
  remoteAddr : String

/-- The loop of `splitHostPort`, on the reversed address; `port` is what it has passed. -/
def scanPort : List Char → List Char → Option (List Char × List Char)
  | [], _ => none
  | c :: rest, port =>
    if c = ':' then some (rest.reverse, port)
    else if c = ']' then none
    else scanPort rest (c :: port)

def splitHostPort (addr : String) : Except String (String × String) :=
  match scanPort addr.toList.reverse [] with
  | some (host, port) => .ok (String.ofList host, String.ofList port)
  | none => .error ("no port in address: " ++ addr)

def stripPort (addr : String) : String :=
  match splitHostPort addr with
  | .ok (host, _) => host
  | .error _ => addr

def isBlank (c : Char) : Bool := c = ' ' || c = '\t'

def trimSpace (s : String) : String := String.ofList (Go.trimFunc isBlank s.toList)

def clientIP (r : Request) (cfg : RateLimiterConfig) : String :=
  if cfg.trustProxy ∧ r.forwardedFor ≠ "" then
    stripPort (trimSpace (String.ofList (r.forwardedFor.toList.takeWhile (· ≠ ','))))
  else stripPort r.remoteAddr

/-! ## Requests from an address -/

/-- The address of a request: the remote address, or behind a trusted proxy the first of the
forwarded addresses. -/
inductive Presents (cfg : RateLimiterConfig) : Request → String → Prop
  | remote (r : Request) (h : ¬ (cfg.trustProxy ∧ r.forwardedFor ≠ "")) : Presents cfg r r.remoteAddr
  | forwarded (text remoteAddr : String) (before after others : List Char) (h : cfg.trustProxy)
      (hbefore : ∀ c ∈ before, isBlank c) (hafter : ∀ c ∈ after, isBlank c)
      (hothers : ∀ c ∈ others.head?, c = ',') :
      Presents cfg ⟨String.ofList (before ++ text.toList ++ after ++ others), remoteAddr⟩ text

def ComesFrom (cfg : RateLimiterConfig) (r : Request) (a : AddrText) : Prop :=
  Presents cfg r a.text ∨ ∃ port : Port, Presents cfg r (a.withPort port)

/-! ## The port -/

section Ports

variable {addr host port : String}

theorem scanPort_append {port : List Char} (hcolon : ':' ∉ port) (hbracket : ']' ∉ port)
    (host passed : List Char) :
    scanPort (port ++ ':' :: host) passed = some (host.reverse, port.reverse ++ passed) := by
  induction port generalizing passed with
  | nil => rfl
  | cons c port ih =>
    rw [mem_cons, not_or] at hcolon hbracket
    rw [cons_append, scanPort, if_neg (Ne.symm hcolon.1), if_neg (Ne.symm hbracket.1),
      ih hcolon.2 hbracket.2, reverse_cons, append_assoc]
    rfl

theorem scanPort_eq_none {addr} (h : ':' ∉ addr) (passed : List Char) :
    scanPort addr passed = none := by
  induction addr generalizing passed with
  | nil => rfl
  | cons c addr ih =>
    rw [mem_cons, not_or] at h
    rw [scanPort, if_neg (Ne.symm h.1), ih h.2, ite_self]

theorem stripPort_append (host : String) (hcolon : ':' ∉ port.toList) (hbracket : ']' ∉ port.toList) :
    stripPort (host ++ ":" ++ port) = host := by
  have hreverse : (host ++ ":" ++ port).toList.reverse =
      port.toList.reverse ++ ':' :: host.toList.reverse := by
    simp
  rw [stripPort, splitHostPort, hreverse,
    scanPort_append (by simpa using hcolon) (by simpa using hbracket), reverse_reverse]
  exact String.ofList_toList

theorem stripPort_eq_self (h : ':' ∉ addr.toList) : stripPort addr = addr := by
  rw [stripPort, splitHostPort, scanPort_eq_none (by simpa using h)]

theorem exists_stripPort (hcolon : ':' ∈ addr.toList) (hbracket : ']' ∉ addr.toList) :
    ∃ port, addr = stripPort addr ++ ":" ++ port ∧ ':' ∉ port.toList := by
  obtain ⟨port, host, hsplit, hport⟩ :=
    eq_append_cons_of_mem (mem_reverse.2 hcolon)
  have haddr : addr = String.ofList host.reverse ++ ":" ++ String.ofList port.reverse := by
    rw [← String.toList_inj, ← reverse_inj, hsplit]
    simp
  have hbracket' : ']' ∉ port := by
    intro hmem
    refine hbracket (mem_reverse.1 ?_)
    rw [hsplit]
    exact mem_append_left _ hmem
  refine ⟨String.ofList port.reverse, ?_, by simpa using hport⟩
  conv_rhs => rw [haddr]
  rw [stripPort_append _ (by simpa using hport) (by simpa using hbracket')]
  exact haddr

end Ports

/-! ## The keys of the requests from an address -/

def separators : List Char := [',', ' ', '\t']

structure Plain (text : String) : Prop where
  ne : text ≠ ""
  free : ∀ c ∈ separators, c ∉ text.toList

section Keys

variable {cfg : RateLimiterConfig} {r : Request} {text : String}

theorem clientIP_eq (hplain : Plain text) (h : Presents cfg r text) :
    clientIP r cfg = stripPort text := by
  cases h with
  | remote r h => rw [clientIP, if_neg h]
  | forwarded _ remoteAddr before after others h hbefore hafter hothers =>
    have hne := mt String.toList_eq_nil_iff.1 hplain.ne
    have hblank : ∀ c, isBlank c = true → c ≠ ',' := by
      rintro c hc rfl
      revert hc
      decide
    have hplain' : ∀ c ∈ text.toList, isBlank c = false := by
      intro c hc
      by_contra hblank
      have hcase : c = ' ' ∨ c = '\t' := by simpa [isBlank, or_iff_not_imp_left] using hblank
      exact hplain.free c (by rcases hcase with rfl | rfl <;> decide) hc
    have hsome : String.ofList (before ++ text.toList ++ after ++ others) ≠ "" := by
      intro hempty
      have hnil := congrArg String.toList hempty
      simp only [String.toList_ofList, String.toList_empty, append_eq_nil_iff] at hnil
      exact hne hnil.1.1.2
    have hfirst : (before ++ text.toList ++ after ++ others).takeWhile (· ≠ ',') =
        before ++ text.toList ++ after := by
      rw [takeWhile_append_of_pos]
      · cases others with
        | nil => simp
        | cons c others =>
          rw [hothers c rfl, takeWhile_cons_of_neg (by decide), append_nil]
      · intro c hc
        rw [append_assoc, mem_append, mem_append] at hc
        rcases hc with hc | hc | hc
        · exact decide_eq_true (hblank c (hbefore c hc))
        · exact decide_eq_true fun hcomma => hplain.free c (hcomma ▸ by decide) hc
        · exact decide_eq_true (hblank c (hafter c hc))
    rw [clientIP, if_pos ⟨h, hsome⟩, String.toList_ofList, hfirst, trimSpace, String.toList_ofList,
      Go.trimFunc_append hbefore hne hplain' hafter, String.ofList_toList]

theorem Plain.append {x y} (hx : Plain x) (hy : Plain y) : Plain (x ++ y) where
  ne h := by
    have hnil := congrArg String.toList h
    rw [String.toList_append] at hnil
    exact hx.ne (String.toList_eq_nil_iff.1 (append_eq_nil_iff.1 hnil).1)
  free c hc h := by
    rw [String.toList_append, mem_append] at h
    exact h.elim (hx.free c hc) (hy.free c hc)

theorem plain_text (a : AddrText) : Plain a.text where
  ne := a.text_ne_empty
  free c hc := by
    have hother : separators.all fun c => c ≠ '.' && c ≠ ':' && !Net.isHexDigit c := by decide
    have hc' := all_eq_true.1 hother c hc
    simp only [Bool.and_eq_true, decide_eq_true_eq, Bool.not_eq_true'] at hc'
    exact AddrText.not_mem_text hc'.1.1 hc'.1.2 hc'.2

theorem port_not_mem {c} (port : Port) (h : c.isDigit = false) : c ∉ port.val.repr.toList := by
  intro hc
  rw [Net.isDigit_of_mem_repr hc] at h
  cases h

theorem plain_port (port : Port) : Plain port.val.repr where
  ne := Nat.repr_ne_empty
  free c hc := by
    have hother : separators.all fun c => !c.isDigit := by decide
    exact port_not_mem port (by simpa using all_eq_true.1 hother c hc)

theorem plain_singleton {c} (h : c ∉ separators) : Plain (String.singleton c) where
  ne := by simp
  free c' hc' hmem := by
    have heq : c' = c := by simpa using hmem
    exact h (heq ▸ hc')

theorem plain_withPort (a : AddrText) (port : Port) : Plain (a.withPort port) := by
  have hcolon : Plain ":" := plain_singleton (c := ':') (by decide)
  have hopen : Plain "[" := plain_singleton (c := '[') (by decide)
  have hclose : Plain "]" := plain_singleton (c := ']') (by decide)
  cases a with
  | v4 v => exact ((plain_text (.v4 v)).append hcolon).append (plain_port port)
  | v6 t =>
    exact (((hopen.append (plain_text (.v6 t))).append hclose).append hcolon).append (plain_port port)

theorem not_mem_colon_v4 (v : Net.V4) : ':' ∉ v.text.toList := by
  intro hc
  rcases Net.V4.mem_text hc with hdot | hdigit
  · cases hdot
  · cases hdigit

theorem clientIP_v4 {v} (h : ComesFrom cfg r (.v4 v)) : clientIP r cfg = v.text := by
  rcases h with h | ⟨port, h⟩
  · rw [clientIP_eq (plain_text _) h]
    exact stripPort_eq_self (not_mem_colon_v4 v)
  · rw [clientIP_eq (plain_withPort _ port) h]
    exact stripPort_append _ (port_not_mem port rfl) (port_not_mem port rfl)

theorem mem_colon_text (t : Net.V6Text) : ':' ∈ t.text.toList :=
  count_pos_iff.1 (Nat.lt_of_lt_of_le Nat.zero_lt_two t.two_le_count)

theorem not_mem_bracket_text (t : Net.V6Text) : ']' ∉ t.text.toList :=
  AddrText.not_mem_text (a := .v6 t) (by decide) (by decide) (by decide)

theorem clientIP_v6 {t} (h : ComesFrom cfg r (.v6 t)) :
    clientIP r cfg = stripPort t.text ∨ clientIP r cfg = "[" ++ t.text ++ "]" := by
  rcases h with h | ⟨port, h⟩
  · exact .inl (clientIP_eq (plain_text (.v6 t)) h)
  · refine .inr ?_
    rw [clientIP_eq (plain_withPort _ port) h]
    exact stripPort_append _ (port_not_mem port rfl) (port_not_mem port rfl)

theorem mem_colon_clientIP {t} (h : ComesFrom cfg r (.v6 t)) : ':' ∈ (clientIP r cfg).toList := by
  rcases clientIP_v6 h with hkey | hkey
  · obtain ⟨port, htext, hport⟩ := exists_stripPort (mem_colon_text t) (not_mem_bracket_text t)
    have htwo := t.two_le_count
    have hone : ":".toList.count ':' = 1 := rfl
    rw [htext] at htwo
    simp only [String.toList_append, count_append, count_eq_zero_of_not_mem hport] at htwo
    rw [hkey]
    exact count_pos_iff.1 (by omega)
  · rw [hkey]
    simp [mem_colon_text]

theorem stripPort_text_ne (t : Net.V6Text) : stripPort t.text ≠ "[" ++ t.text ++ "]" := by
  intro heq
  obtain ⟨port, htext, -⟩ := exists_stripPort (mem_colon_text t) (not_mem_bracket_text t)
  have hcolon : ":".length = 1 := rfl
  have hlen := congrArg String.length htext
  rw [heq] at hlen
  simp only [String.length_append] at hlen
  omega

end Keys

/-- The requests from an address have one key, which is not the key of a request from another
address, exactly if it is an IPv4 address. -/
theorem clientIP_iff (cfg : RateLimiterConfig) (a : AddrText) :
    ((∀ r r', ComesFrom cfg r a → ComesFrom cfg r' a → clientIP r cfg = clientIP r' cfg) ∧
      ∀ b : AddrText, b.addr ≠ a.addr → ∀ r r', ComesFrom cfg r a → ComesFrom cfg r' b →
        clientIP r cfg ≠ clientIP r' cfg) ↔ ∃ v, a = .v4 v := by
  constructor
  · rintro ⟨hsame, -⟩
    cases a with
    | v4 v => exact ⟨v, rfl⟩
    | v6 t =>
      -- The address as the remote address, without a port and with one.
      have hbare : Presents cfg ⟨"", t.text⟩ t.text := .remote ⟨"", t.text⟩ (by simp)
      have hport : Presents cfg ⟨"", (AddrText.v6 t).withPort 80⟩ ((AddrText.v6 t).withPort 80) :=
        .remote ⟨"", (AddrText.v6 t).withPort 80⟩ (by simp)
      have heq := hsame _ _ (.inl hbare) (.inr ⟨80, hport⟩)
      rw [clientIP_eq (plain_text (.v6 t)) hbare, clientIP_eq (plain_withPort (.v6 t) 80) hport] at heq
      refine absurd (heq.trans ?_) (stripPort_text_ne t)
      exact stripPort_append _ (port_not_mem 80 rfl) (port_not_mem 80 rfl)
  · rintro ⟨v, rfl⟩
    refine ⟨fun r r' h h' => (clientIP_v4 h).trans (clientIP_v4 h').symm, fun b hb r r' h h' heq => ?_⟩
    rw [clientIP_v4 h] at heq
    cases b with
    | v4 w =>
      rw [clientIP_v4 h'] at heq
      exact hb (congrArg Net.Addr.v4 (Net.V4.text_injective heq).symm)
    | v6 t =>
      have hcolon := mem_colon_clientIP h'
      rw [← heq] at hcolon
      exact not_mem_colon_v4 v hcolon

def loopback : AddrText :=
  .v6 (.short [] ⟨[⟨"1", by decide, by decide, forall_mem_singleton.2 rfl⟩], none⟩ (by decide))

def neighbour : AddrText :=
  .v6 (.short [] ⟨[⟨"2", by decide, by decide, forall_mem_singleton.2 rfl⟩], none⟩ (by decide))

def proxyConfig : RateLimiterConfig where
  enabled := true
  rps := 10
  burst := 20
  ttlMinutes := 10
  trustProxy := true

/-- A trusted proxy forwards requests from `::1` and `::2`, which share a key; a request with a port
from `::1` has another key. -/
theorem loopback_keys :
    loopback.addr ≠ neighbour.addr ∧ ∃ r r' r'', ComesFrom proxyConfig r loopback ∧
      ComesFrom proxyConfig r' neighbour ∧ ComesFrom proxyConfig r'' loopback ∧
      clientIP r proxyConfig = clientIP r' proxyConfig ∧
      clientIP r proxyConfig ≠ clientIP r'' proxyConfig := by
  have hforwarded : ∀ a : AddrText, ComesFrom proxyConfig ⟨a.text, "10.0.0.1:443"⟩ a := by
    intro a
    have h := Presents.forwarded a.text "10.0.0.1:443" [] [] [] (rfl : proxyConfig.trustProxy)
    exact .inl (by simpa using h)
  have hremote : ComesFrom proxyConfig ⟨"", loopback.withPort 80⟩ loopback :=
    .inr ⟨80, .remote ⟨"", loopback.withPort 80⟩ (by simp)⟩
  exact ⟨by decide +kernel, _, _, _, hforwarded loopback, hforwarded neighbour, hremote,
    by decide +kernel, by decide +kernel⟩

end Uncworks.Server
