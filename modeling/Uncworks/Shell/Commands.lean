import Uncworks.Go.Utf8

/-!
# Simple shell commands

A part of the shell's command language, on bytes: words of plain characters, text in single quotes
and characters behind a backslash, separated by blanks, and one redirection of the output at the
end.
-/

namespace Shell

open List

open Go (utf8)

abbrev Bytes := List UInt8

def quote : UInt8 := 0x27

def backslash : UInt8 := 0x5c

def newline : UInt8 := 0x0a

def great : UInt8 := 0x3e

def isBlank (c : UInt8) : Bool := c = 0x20 || c = 0x09

/-- The characters that stand for themselves everywhere in a word. -/
def isPlain (c : UInt8) : Bool :=
  (Char.ofUInt8 c).isAlphanum || Char.ofUInt8 c ∈ ['/', '.', '_', '-', '%', '+', ',', ':', '@']

inductive Token
  | word (text : Bytes)
  | great
  deriving DecidableEq

/-- Where a character stands, with the part of the word before it. -/
inductive Place
  | between
  | bare (word : Bytes)
  | quoted (word : Bytes)
  | escaped (word : Bytes)

def Place.word : Place → Bytes
  | .between => []
  | .bare w | .quoted w | .escaped w => w

def Place.tokens : Place → List Token
  | .bare w => [.word w]
  | _ => []

def lex : Place → Bytes → Option (List Token)
  | .quoted _, [] | .escaped _, [] => none
  | place, [] => some place.tokens
  | .quoted w, c :: cs => if c = quote then lex (.bare w) cs else lex (.quoted (w ++ [c])) cs
  | .escaped w, c :: cs => if c = newline then none else lex (.bare (w ++ [c])) cs
  | place, c :: cs =>
    if c = quote then lex (.quoted place.word) cs
    else if c = backslash then lex (.escaped place.word) cs
    else if isPlain c then lex (.bare (place.word ++ [c])) cs
    else if isBlank c then (place.tokens ++ ·) <$> lex .between cs
    else if c = great ∧ place.tokens = [] then (.great :: ·) <$> lex .between cs
    else none

structure Command where
  words : List Bytes
  output : Option Bytes := none

def parse : List Token → Option Command
  | [] => some { words := [] }
  | [.great, .word path] => some { words := [], output := some path }
  | .word w :: tokens => (parse tokens).map fun c => { c with words := w :: c.words }
  | _ => none

abbrev Files := Bytes → Option Bytes

def run (command : Bytes) (files : Files) : Option Files :=
  match (lex .between command).bind parse with
  | some { words := [name, format, text], output := some path } =>
    if name = utf8 "printf" ∧ format = utf8 "%s" then
      some (Function.update files path (some text))
    else none
  | _ => none

/-! ## Words -/

variable {place : Place} {w b rest : Bytes} {c : UInt8}

attribute [local simp] lex

theorem lex_plain_cons (hplace : place = .between ∨ ∃ w, place = .bare w) (hc : isPlain c) :
    lex place (c :: rest) = lex (.bare (place.word ++ [c])) rest := by
  have hquote : c ≠ quote := by
    rintro rfl
    exact absurd hc (by decide)
  have hbackslash : c ≠ backslash := by
    rintro rfl
    exact absurd hc (by decide)
  obtain rfl | ⟨w, rfl⟩ := hplace
  all_goals simp [hquote, hbackslash, hc]

theorem lex_plain (hplace : place = .between ∨ ∃ w, place = .bare w) (hb : ∀ c ∈ b, isPlain c)
    (hne : b ≠ []) : lex place (b ++ rest) = lex (.bare (place.word ++ b)) rest := by
  induction b generalizing place with
  | nil => exact absurd rfl hne
  | cons c b ih =>
    rw [forall_mem_cons] at hb
    rw [cons_append, lex_plain_cons hplace hb.1]
    by_cases hnil : b = []
    · rw [hnil, nil_append]
    · rw [ih (.inr ⟨_, rfl⟩) hb.2 hnil, Place.word, append_assoc, singleton_append]

theorem lex_quote : lex .between (quote :: rest) = lex (.quoted []) rest := by
  simp [Place.word]

theorem lex_quoted_cons (hc : c ≠ quote) :
    lex (.quoted w) (c :: rest) = lex (.quoted (w ++ [c])) rest := by
  rw [lex, if_neg hc]

theorem lex_quoted_escape :
    lex (.quoted w) (utf8 "'\\''" ++ rest) = lex (.quoted (w ++ [quote])) rest := by
  have hbytes : utf8 "'\\''" = [quote, backslash, quote, quote] := by decide
  have hne : backslash ≠ quote ∧ quote ≠ newline := by decide
  simp [hbytes, hne.1, hne.2, Place.word]

theorem lex_replaceAll_quote :
    lex (.quoted w) (Go.replaceAllByte quote (utf8 "'\\''") b ++ quote :: rest) =
      lex (.bare (w ++ b)) rest := by
  induction b generalizing w with
  | nil => simp [Go.replaceAllByte]
  | cons c b ih =>
    have hcons : Go.replaceAllByte quote (utf8 "'\\''") (c :: b) =
        (if c = quote then utf8 "'\\''" else [c]) ++ Go.replaceAllByte quote (utf8 "'\\''") b := rfl
    rw [hcons, append_assoc]
    split_ifs with hc
    · rw [lex_quoted_escape, ih, hc, append_assoc, singleton_append]
    · rw [singleton_append, lex_quoted_cons hc, ih, append_assoc, singleton_append]

theorem lex_blank (hplace : place = .between ∨ ∃ w, place = .bare w) :
    lex place (0x20 :: rest) = (place.tokens ++ ·) <$> lex .between rest := by
  have hblank : (0x20 : UInt8) ≠ quote ∧ (0x20 : UInt8) ≠ backslash ∧ isPlain 0x20 = false ∧
      isBlank 0x20 := by decide
  obtain rfl | ⟨w, rfl⟩ := hplace
  all_goals simp [hblank]

theorem lex_great : lex .between (great :: rest) = (.great :: ·) <$> lex .between rest := by
  have hgreat : great ≠ quote ∧ great ≠ backslash ∧ isPlain great = false ∧ isBlank great = false := by
    decide
  simp [hgreat, Place.tokens]

theorem run_printf {path : Bytes} (hpath : ∀ c ∈ path, isPlain c) (hne : path ≠ []) (text : Bytes)
    (files : Files) :
    run (utf8 "printf '%s' " ++ (utf8 "'" ++ Go.replaceAllByte quote (utf8 "'\\''") text ++ utf8 "'" ++
      (utf8 " > " ++ path))) files = some (Function.update files path (some text)) := by
  have hname : utf8 "printf '%s' " =
      utf8 "printf" ++ 0x20 :: quote :: (Go.replaceAllByte quote (utf8 "'\\''") (utf8 "%s") ++
        quote :: [0x20]) := by decide
  have hquote : utf8 "'" = [quote] := by decide
  have hgreat : utf8 " > " = [0x20, great, 0x20] := by decide
  have hpathWord : lex .between path = some [.word path] := by
    have hlex : lex .between (path ++ []) = lex (.bare path) [] := lex_plain (.inl rfl) hpath hne
    rwa [append_nil] at hlex
  have hlex : lex .between (utf8 "printf '%s' " ++ (utf8 "'" ++
      Go.replaceAllByte quote (utf8 "'\\''") text ++ utf8 "'" ++ (utf8 " > " ++ path))) =
      some [.word (utf8 "printf"), .word (utf8 "%s"), .word text, .great, .word path] := by
    simp only [hname, hquote, hgreat, append_assoc, cons_append, nil_append]
    rw [lex_plain (.inl rfl) (all_eq_true.1 (by decide)) (by decide),
      lex_blank (.inr ⟨_, rfl⟩), lex_quote, lex_replaceAll_quote, lex_blank (.inr ⟨_, rfl⟩), lex_quote, lex_replaceAll_quote,
      lex_blank (.inr ⟨_, rfl⟩), lex_great, lex_blank (.inl rfl), hpathWord]
    rfl
  rw [run, hlex]
  rfl

end Shell
