import Mathlib.Data.List.Basic

/-!
# Texts of addresses

An IPv4 address is written as four numbers with dots between them, an IPv6 address as eight groups of up to four hexadecimal digits with colons between them; one run of groups that are zero
may be left out, where two colons remain, and the last two groups may be written as an IPv4 address
(RFC 4291).
-/

namespace Net

open List

/-! ## IPv4 -/

@[ext]
structure V4 where
  a : Fin 256
  b : Fin 256
  c : Fin 256
  d : Fin 256
  deriving DecidableEq

namespace V4

def parts (v : V4) : List String := [v.a.val.repr, v.b.val.repr, v.c.val.repr, v.d.val.repr]

def text (v : V4) : String := ".".intercalate v.parts

end V4

abbrev Port := Fin 65536

/-! ## IPv6 -/

def isHexDigit (c : Char) : Bool := c.isDigit || ('a' ≤ c && c ≤ 'f') || ('A' ≤ c && c ≤ 'F')

def hexValue (c : Char) : ℕ :=
  if c.isDigit then c.toNat - '0'.toNat
  else if 'a' ≤ c then c.toNat - 'a'.toNat + 10
  else c.toNat - 'A'.toNat + 10

structure Group where
  digits : String
  ne : digits ≠ ""
  short : digits.length ≤ 4
  hex : ∀ c ∈ digits.toList, isHexDigit c = true

def Group.value (g : Group) : ℕ := g.digits.toList.foldl (fun n c => 16 * n + hexValue c) 0

structure Groups where
  groups : List Group
  tail : Option V4

namespace Groups

def texts (g : Groups) : List String := g.groups.map Group.digits ++ g.tail.toList.map V4.text

def values (g : Groups) : List ℕ :=
  g.groups.map Group.value ++
    g.tail.toList.flatMap fun v => [256 * v.a.val + v.b.val, 256 * v.c.val + v.d.val]

end Groups

inductive V6Text where
  | full (all : Groups) (h : all.values.length = 8)
  | short (left : List Group) (right : Groups) (h : left.length + right.values.length < 8)

namespace V6Text

def text : V6Text → String
  | full all _ => ":".intercalate all.texts
  | short left right _ =>
    ":".intercalate (left.map Group.digits) ++ "::" ++ ":".intercalate right.texts

def values : V6Text → List ℕ
  | full all _ => all.values
  | short left right _ =>
    left.map Group.value ++ replicate (8 - (left.length + right.values.length)) 0 ++ right.values

end V6Text

/-! ## Both -/

inductive AddrText where
  | v4 (v : V4)
  | v6 (t : V6Text)

inductive Addr where
  | v4 (v : V4)
  | v6 (values : List ℕ)
  deriving DecidableEq

namespace AddrText

def text : AddrText → String
  | v4 v => v.text
  | v6 t => t.text

def addr : AddrText → Addr
  | v4 v => .v4 v
  | v6 t => .v6 t.values

def withPort (port : Port) : AddrText → String
  | v4 v => v.text ++ ":" ++ port.val.repr
  | v6 t => "[" ++ t.text ++ "]" ++ ":" ++ port.val.repr

end AddrText

/-! ## The characters of the texts -/

section Characters

variable {c : Char}

theorem isDigit_of_mem_repr {n : ℕ} (h : c ∈ n.repr.toList) : c.isDigit = true := by
  rw [Nat.repr_eq_ofList_toDigits, String.toList_ofList] at h
  exact Nat.isDigit_of_mem_toDigits (by decide) (by decide) h

theorem eq_of_repr_eq {m n : ℕ} (h : m.repr = n.repr) : m = n := by
  have hdigits := congrArg (fun s => Nat.ofDigitChars 10 s.toList 0) h
  simpa using hdigits

theorem mem_intercalate {sep : String} {ls} (h : c ∈ (sep.intercalate ls).toList) :
    c ∈ sep.toList ∨ ∃ l ∈ ls, c ∈ l.toList := by
  induction ls with
  | nil => simp at h
  | cons l ls ih =>
    by_cases hnil : ls = []
    · rw [hnil] at h
      exact .inr ⟨l, mem_cons_self, h⟩
    · rw [String.intercalate_cons_of_ne_nil hnil, String.toList_append, String.toList_append,
        append_assoc, mem_append, mem_append] at h
      rcases h with h | h | h
      · exact .inr ⟨l, mem_cons_self, h⟩
      · exact .inl h
      · rcases ih h with hsep | ⟨l', hl', hc⟩
        · exact .inl hsep
        · exact .inr ⟨l', mem_cons_of_mem _ hl', hc⟩

theorem V4.isDigit_of_mem_parts {v : V4} {l} (hl : l ∈ v.parts) (hc : c ∈ l.toList) :
    c.isDigit = true := by
  simp only [V4.parts, mem_cons, not_mem_nil, or_false] at hl
  rcases hl with rfl | rfl | rfl | rfl <;> exact isDigit_of_mem_repr hc

theorem V4.mem_text {v : V4} (h : c ∈ v.text.toList) : c = '.' ∨ c.isDigit = true := by
  rcases mem_intercalate h with hsep | ⟨l, hl, hc⟩
  · exact .inl (by simpa using hsep)
  · exact .inr (V4.isDigit_of_mem_parts hl hc)

theorem Groups.mem_texts {g : Groups} {l} (hl : l ∈ g.texts) (hc : c ∈ l.toList) :
    c = '.' ∨ isHexDigit c = true := by
  rcases mem_append.1 hl with hl | hl
  · obtain ⟨group, -, rfl⟩ := mem_map.1 hl
    exact .inr (group.hex c hc)
  · obtain ⟨v, -, rfl⟩ := mem_map.1 hl
    refine (V4.mem_text hc).imp_right fun hdigit => ?_
    simp [isHexDigit, hdigit]

theorem V6Text.mem_text {t : V6Text} (h : c ∈ t.text.toList) :
    c = ':' ∨ c = '.' ∨ isHexDigit c = true := by
  have hgroups : ∀ g : Groups, c ∈ (":".intercalate g.texts).toList →
      c = ':' ∨ c = '.' ∨ isHexDigit c = true := by
    intro g hc
    rcases mem_intercalate hc with hsep | ⟨l, hl, hc⟩
    · exact .inl (by simpa using hsep)
    · exact .inr (Groups.mem_texts hl hc)
  cases t with
  | full all _ => exact hgroups all h
  | short left right _ =>
    rw [V6Text.text, String.toList_append, String.toList_append, append_assoc, mem_append,
      mem_append] at h
    rcases h with h | h | h
    · have hleft : (⟨left, none⟩ : Groups).texts = left.map Group.digits := by simp [Groups.texts]
      exact hgroups ⟨left, none⟩ (hleft ▸ h)
    · exact .inl (by simpa using h)
    · exact hgroups right h

theorem AddrText.not_mem_text {a : AddrText} (hdot : c ≠ '.') (hcolon : c ≠ ':')
    (hhex : isHexDigit c = false) : c ∉ a.text.toList := by
  intro hc
  cases a with
  | v4 v =>
    rcases V4.mem_text hc with h | h
    · exact hdot h
    · simp [isHexDigit, h] at hhex
  | v6 t =>
    rcases V6Text.mem_text hc with h | h | h
    · exact hcolon h
    · exact hdot h
    · simp [h] at hhex

end Characters

theorem V6Text.two_le_count (t : V6Text) : 2 ≤ t.text.toList.count ':' := by
  cases t with
  | full all h =>
    obtain ⟨groups, tail⟩ := all
    match groups with
    | g₁ :: g₂ :: g₃ :: groups =>
      have htexts : (⟨g₁ :: g₂ :: g₃ :: groups, tail⟩ : Groups).texts =
          g₁.digits :: g₂.digits :: (⟨g₃ :: groups, tail⟩ : Groups).texts := rfl
      have hrest : (⟨g₃ :: groups, tail⟩ : Groups).texts ≠ [] := cons_ne_nil _ _
      have hcolon : ":".toList.count ':' = 1 := rfl
      rw [V6Text.text, htexts, String.intercalate_cons_of_ne_nil (cons_ne_nil _ _),
        String.intercalate_cons_of_ne_nil hrest]
      simp only [String.toList_append, count_append]
      omega
    | [] | [_] | [_, _] => cases tail <;> simp [Groups.values] at h
  | short left right h =>
    have hcolons : "::".toList.count ':' = 2 := rfl
    simp only [V6Text.text, String.toList_append, count_append]
    omega

theorem AddrText.text_ne_empty (a : AddrText) : a.text ≠ "" := by
  cases a with
  | v4 v =>
    intro h
    have hnil := congrArg String.toList h
    simp [AddrText.text, V4.text, V4.parts] at hnil
  | v6 t =>
    intro h
    have htwo := t.two_le_count
    have hempty : t.text = "" := h
    rw [hempty] at htwo
    simp at htwo

theorem V4.text_injective : Function.Injective V4.text := by
  have hsplit : ∀ v : V4, v.text.toList.splitOn '.' = v.parts.map String.toList := by
    intro v
    have hdots : ∀ l ∈ v.parts.map String.toList, '.' ∉ l := by
      intro l hl hdot
      obtain ⟨part, hpart, rfl⟩ := mem_map.1 hl
      have hdigit := V4.isDigit_of_mem_parts hpart hdot
      revert hdigit
      decide
    rw [V4.text, String.toList_intercalate]
    exact splitOn_intercalate '.' hdots (by simp [V4.parts])
  intro v w h
  have hparts : v.parts.map String.toList = w.parts.map String.toList := by
    rw [← hsplit v, ← hsplit w, h]
  simp only [V4.parts, map_cons, cons.injEq, and_true, String.toList_inj]
    at hparts
  obtain ⟨ha, hb, hc, hd⟩ := hparts
  exact V4.ext (Fin.ext (eq_of_repr_eq ha)) (Fin.ext (eq_of_repr_eq hb)) (Fin.ext (eq_of_repr_eq hc))
    (Fin.ext (eq_of_repr_eq hd))

end Net
