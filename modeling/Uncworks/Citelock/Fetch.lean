import Mathlib.Data.Nat.Notation

/-!
# The client that fetches a citation

`safeClient` refuses to connect to a private address, whatever the name of the host resolves to
(`internal/citelock`).  It looks the name up and checks the answer; the dialer then looks it up
again.
-/

namespace Uncworks.Citelock

abbrev IP := List UInt8

def to4 (ip : IP) : Option IP :=
  if ip.length = 4 then some ip
  else if ip.length = 16 ∧ ip.take 12 = List.replicate 10 0 ++ [0xff, 0xff] then some (ip.drop 12)
  else none

section

variable (v4 : UInt8 → UInt8 → UInt8 → Bool) (v6 : UInt8 → UInt8 → Bool) (ip : IP)

/-- A test of `net.IP`: one of the IPv4 address, if it is one, and one of the first two bytes of an
IPv6 address. -/
def test : Bool :=
  match to4 ip, ip with
  | some (a :: b :: c :: _), _ => v4 a b c
  | none, a :: b :: _ => ip.length = 16 && v6 a b
  | _, _ => false

def isLoopback : Bool := test (fun a _ _ => a = 127) (fun _ _ => ip = List.replicate 15 0 ++ [1]) ip

def isPrivate : Bool :=
  test (fun a b _ => a = 10 || (a = 172 && b &&& 0xf0 = 16) || (a = 192 && b = 168))
    (fun a _ => a &&& 0xfe = 0xfc) ip

def isLinkLocalUnicast : Bool :=
  test (fun a b _ => a = 169 && b = 254) (fun a b => a = 0xfe && b &&& 0xc0 = 0x80) ip

def isLinkLocalMulticast : Bool :=
  test (fun a b c => a = 224 && b = 0 && c = 0) (fun a b => a = 0xff && b &&& 0x0f = 0x02) ip

def isUnspecified : Bool := to4 ip = some [0, 0, 0, 0] || ip = List.replicate 16 0

def isMulticast : Bool := test (fun a _ _ => a &&& 0xf0 = 0xe0) (fun a _ => a = 0xff) ip

def unsafeAddr : Bool :=
  isLoopback ip || isPrivate ip || isLinkLocalUnicast ip || isLinkLocalMulticast ip ||
    isUnspecified ip || isMulticast ip

end

/-- Reading and writing addresses, and what the name server answers to one lookup after the other. -/
structure Resolver where
  parseIP : String → Option IP
  text : IP → String
  answers : ℕ → Except String (List IP)

/-- A literal address is its own answer and takes no lookup. -/
def Resolver.lookupIP (r : Resolver) (time : ℕ) (host : String) : Except String (List IP) :=
  match r.parseIP host with
  | some ip => .ok [ip]
  | none => r.answers time

/-- The `DialContext` of the transport, where `net.Dialer` resolves the host on its own: the addresses
of which it connects to one that accepts. -/
def dialContext (guardAddr : IP → Bool) (r : Resolver) (time : ℕ) (host port : String) :
    Except String (List IP) :=
  match r.lookupIP time host with
  | .error err => .error s!"resolving {host}: {err}"
  | .ok ips =>
    match ips.find? guardAddr with
    | some ip => .error ("unsafe citation source: refusing to connect to " ++
        s!"{host}, which resolves to {r.text ip}")
    | none =>
      match r.lookupIP (time + 1) host with
      | .error err => .error s!"dialing {host}:{port}: {err}"
      | .ok ips => .ok ips

theorem dialContext_eq_ok_iff {guardAddr r time host port ips} : dialContext guardAddr r time host port = .ok ips ↔
      ∃ checked, r.lookupIP time host = .ok checked ∧ (∀ ip ∈ checked, guardAddr ip = false) ∧
        r.lookupIP (time + 1) host = .ok ips := by
  unfold dialContext
  split
  · next h => simp [h]
  · next checked h =>
    split
    · next ip hfind =>
      have hmem := List.mem_of_find?_eq_some hfind
      have hrefused := List.find?_some hfind
      simp only [h, Except.ok.injEq, exists_eq_left', reduceCtorEq, false_iff, not_and]
      exact fun hall => absurd (hall ip hmem) (by simp [hrefused])
    · next hfind =>
      have hall : ∀ ip ∈ checked, guardAddr ip = false := by simpa using hfind
      split
      · next h' => simp [h']
      · next h' =>
        simp only [h, h', Except.ok.injEq, exists_eq_left']
        exact (and_iff_right hall).symm

/-- Every address that the client may connect to passes the check exactly if the host is a literal
address, or the second answer has no address that is refused when the first one has none. -/
theorem dialContext_guarded_iff (guardAddr : IP → Bool) (r : Resolver) (time : ℕ)
    (host port : String) :
    (∀ ips, dialContext guardAddr r time host port = .ok ips → ∀ ip ∈ ips, guardAddr ip = false) ↔
      (r.parseIP host).isSome ∨ ∀ checked dialed, r.answers time = .ok checked →
        r.answers (time + 1) = .ok dialed → (∀ ip ∈ checked, guardAddr ip = false) →
        ∀ ip ∈ dialed, guardAddr ip = false := by
  simp only [dialContext_eq_ok_iff, Resolver.lookupIP]
  cases hparse : r.parseIP host with
  | some literal =>
    simp only [Option.isSome_some, true_or, iff_true]
    rintro ips ⟨_, h, hall, h'⟩
    rwa [← Except.ok.inj h', Except.ok.inj h]
  | none =>
    simp only [Option.isSome_none, Bool.false_eq_true, false_or]
    exact ⟨fun h checked dialed hc hd hall => h dialed ⟨checked, hc, hall, hd⟩,
      fun h ips ⟨checked, hc, hall, hd⟩ => h checked ips hc hd hall⟩

/-- A name that moves to the loopback address after the first lookup. -/
def rebinding : Resolver where
  parseIP _ := none
  text _ := ""
  answers time := .ok [if time = 0 then [93, 184, 216, 34] else [127, 0, 0, 1]]

theorem rebinding_dials_loopback :
    dialContext unsafeAddr rebinding 0 "example.org" "443" = .ok [[127, 0, 0, 1]] ∧
      unsafeAddr [127, 0, 0, 1] = true :=
  ⟨rfl, by decide⟩

end Uncworks.Citelock
