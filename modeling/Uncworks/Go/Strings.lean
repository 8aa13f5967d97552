import Mathlib.Data.List.DropRight
import Mathlib.Data.List.TakeDrop

/-!
# Go string functions

The functions of Go's `strings`, `path/filepath` and `net/url` packages that the modelled code
calls, over Lean strings.  Unicode case mapping, URL parsing and `%q` quoting are parameters
(`Lib`); the rest is computed.
-/

namespace Go

open List

structure Lib where
  /-- `unicode.ToLower`. -/
  toLowerRune : Char → Char
  /-- The path of a URL that `url.Parse` accepts. -/
  urlPath : String → Option String
  /-- The `%q` verb of `fmt`. -/
  quote : String → String

def isSpace (c : Char) : Bool :=
  let n := c.toNat
  (9 ≤ n && n ≤ 13) || n == 0x20 || n == 0x85 || n == 0xA0 || n == 0x1680 ||
    (0x2000 ≤ n && n ≤ 0x200A) || n == 0x2028 || n == 0x2029 || n == 0x202F || n == 0x205F ||
    n == 0x3000

def trimSpace (s : String) : String :=
  String.ofList ((s.toList.dropWhile isSpace).reverse.dropWhile isSpace).reverse

def Lib.toLower (lib : Lib) (s : String) : String := String.ofList (s.toList.map lib.toLowerRune)

def hasPrefix (s pre : String) : Bool := pre.toList.isPrefixOf s.toList

theorem hasPrefix_append (pre s : String) : hasPrefix (pre ++ s) pre := by
  simp [hasPrefix]

theorem hasPrefix_iff {s pre} : hasPrefix s pre ↔ ∃ rest, s = pre ++ rest := by
  constructor
  · intro h
    obtain ⟨rest, hrest⟩ := isPrefixOf_iff_prefix.1 h
    exact ⟨String.ofList rest, String.toList_inj.1 (by simp [← hrest])⟩
  · rintro ⟨rest, rfl⟩
    exact hasPrefix_append pre rest

def containsList (sub : List Char) : List Char → Bool
  | [] => sub.isEmpty
  | c :: cs => sub.isPrefixOf (c :: cs) || containsList sub cs

def contains (s sub : String) : Bool := containsList sub.toList s.toList

def trimPrefix (s pre : String) : String :=
  if hasPrefix s pre then String.ofList (s.toList.drop pre.toList.length) else s

theorem trimPrefix_append (pre s : String) : trimPrefix (pre ++ s) pre = s := by
  simp [trimPrefix, hasPrefix_append]

theorem trimPrefix_of_not {s pre} (h : ¬ hasPrefix s pre) : trimPrefix s pre = s := if_neg h

def hasSuffix (s suf : String) : Bool := suf.toList.isSuffixOf s.toList

def trimSuffix (s suf : String) : String :=
  if suf.toList.isSuffixOf s.toList then
    String.ofList (s.toList.take (s.toList.length - suf.toList.length))
  else s

/-- `strings.TrimRight` for a cutset of one character. -/
def trimRight (s : String) (c : Char) : String :=
  String.ofList (s.toList.reverse.dropWhile (· == c)).reverse

def trimFunc (p : Char → Bool) (s : List Char) : List Char := (s.dropWhile p).rdropWhile p

section Trim

variable {p : Char → Bool} {s : List Char} {c : Char}

theorem trimFunc_prefix : trimFunc p s <+: s.dropWhile p := rdropWhile_prefix p _

theorem trimFunc_sublist : (trimFunc p s).Sublist s :=
  trimFunc_prefix.sublist.trans (dropWhile_sublist p)

theorem head_trimFunc (h : c ∈ (trimFunc p s).head?) : p c = false := by
  obtain ⟨rest, hrest⟩ := trimFunc_prefix (p := p) (s := s)
  have hhead := head?_dropWhile_not p s
  rwa [← hrest, head?_append, Option.mem_def.1 h] at hhead

theorem getLast_trimFunc (h : c ∈ (trimFunc p s).getLast?) : p c = false := by
  have hne : trimFunc p s ≠ [] := fun hnil => by simp [hnil] at h
  have hlast := rdropWhile_last_not p (s.dropWhile p) hne
  rw [Option.mem_def, getLast?_eq_some_getLast hne, Option.some.injEq] at h
  rw [← h]
  exact Bool.eq_false_iff.2 hlast

theorem trimFunc_eq_self (hhead : ∀ c ∈ s.head?, p c = false) (hlast : ∀ c ∈ s.getLast?, p c = false) :
    trimFunc p s = s := by
  have hdrop : s.dropWhile p = s := by
    cases s with
    | nil => rfl
    | cons c s => exact dropWhile_cons_of_neg (by simp [hhead c rfl])
  rw [trimFunc, hdrop, rdropWhile_eq_self_iff]
  intro hne
  rw [hlast _ (getLast?_eq_some_getLast hne)]
  exact Bool.false_ne_true

theorem trimFunc_append {a b} (ha : ∀ c ∈ a, p c) (hne : s ≠ []) (hs : ∀ c ∈ s, p c = false)
    (hb : ∀ c ∈ b, p c) : trimFunc p (a ++ s ++ b) = s := by
  have hfront : (a ++ s ++ b).dropWhile p = s ++ b := by
    obtain ⟨c, s', rfl⟩ := exists_cons_of_ne_nil hne
    rw [append_assoc, dropWhile_append_of_pos ha, cons_append,
      dropWhile_cons_of_neg (by simp [hs c mem_cons_self])]
  have hback : s.rdropWhile p = s := by
    rw [rdropWhile_eq_self_iff]
    simp [hs _ (getLast_mem hne)]
  rw [trimFunc, hfront, rdropWhile, reverse_append,
    dropWhile_append_of_pos (by simpa using hb)]
  exact hback

theorem length_trimFunc_le {n} : (trimFunc p s).length ≤ n ↔ ∀ c ∈ (s.dropWhile p).drop n, p c := by
  have hsplit : s.dropWhile p = trimFunc p s ++ (s.dropWhile p).rtakeWhile p :=
    rdropWhile_append_rtakeWhile.symm
  constructor
  · intro hlen c hc
    rw [hsplit, drop_append, drop_of_length_le hlen] at hc
    exact mem_rtakeWhile_imp (mem_of_mem_drop hc)
  · intro hall
    by_contra hlen
    have hne : trimFunc p s ≠ [] := fun hnil => hlen (by simp [hnil])
    have hmem : (trimFunc p s).getLast hne ∈ (trimFunc p s).drop n := by
      rw [← getLast_drop (by simpa using hlen)]
      exact getLast_mem _
    have hp := hall ((trimFunc p s).getLast hne) (by
      rw [hsplit, drop_append]
      exact mem_append_left _ hmem)
    rw [getLast_trimFunc (getLast?_eq_some_getLast hne)] at hp
    cases hp

theorem trimFunc_map {f} (h : ∀ c, p (f c) = p c) :
    trimFunc p (s.map f) = (trimFunc p s).map f := by
  have hcomp : p ∘ f = p := funext h
  rw [trimFunc, trimFunc, dropWhile_map, hcomp, rdropWhile, ← map_reverse,
    dropWhile_map, hcomp, ← map_reverse]
  rfl

end Trim

theorem not_of_mem_splitOnP {q} {field text : List Char} (h : field ∈ text.splitOnP q) :
    ∀ c ∈ field, q c = false := by
  induction text generalizing field with
  | nil => simp_all
  | cons d text ih =>
    rw [splitOnP_cons_eq_if_modifyHead] at h
    by_cases hd : q d = true
    · rw [if_pos hd, mem_cons] at h
      obtain rfl | h := h
      · simp
      · exact ih h
    · rw [if_neg hd] at h
      cases htext : text.splitOnP q with
      | nil => exact absurd htext (splitOnP_ne_nil q text)
      | cons first rest =>
        rw [htext, modifyHead_cons, mem_cons] at h
        obtain rfl | h := h
        · exact forall_mem_cons.2 ⟨by simpa using hd, ih (htext ▸ mem_cons_self)⟩
        · exact ih (htext ▸ mem_cons_of_mem _ h)

def split (sep : Char) (s : String) : List String := (s.toList.splitOn sep).map String.ofList

theorem split_intercalate {sep ls} (hsep : ∀ l ∈ ls, sep ∉ l.toList) (hls : ls ≠ []) :
    split sep (String.ofList ([sep].intercalate (ls.map String.toList))) = ls := by
  have hsep' : ∀ l ∈ ls.map String.toList, sep ∉ l := by simpa using hsep
  rw [split, String.toList_ofList, splitOn_intercalate sep hsep' (by simpa using hls)]
  simp

def fields (s : String) : List String :=
  ((s.toList.splitOnP isSpace).filter (· ≠ [])).map String.ofList

/-- The slice `s[:n]`; the last character is left out if the slice would end inside of it. -/
def takeBytes : ℕ → List Char → List Char
  | n, c :: cs => if c.utf8Size ≤ n then c :: takeBytes (n - c.utf8Size) cs else []
  | _, [] => []

/-- The slice `s[len(s)-n:]` of a longer text, without a character that it would cut. -/
def lastBytes (n : ℕ) : List Char → List Char
  | [] => []
  | c :: cs => if ((c :: cs).map Char.utf8Size).sum ≤ n then c :: cs else lastBytes n cs

/-- `strings.SplitN` for a separator of one character and a positive count. -/
def splitN (sep : Char) : ℕ → List Char → List String
  | n + 2, s =>
    match s.span (· != sep) with
    | (a, _ :: b) => String.ofList a :: splitN sep (n + 1) b
    | (a, []) => [String.ofList a]
  | _, s => [String.ofList s]

theorem splitN_two {sep s a b} (h : splitN sep 2 s = [a, b]) : s = a.toList ++ sep :: b.toList := by
  unfold splitN at h
  split at h
  · rename_i before c after hspan
    rw [span_eq_takeWhile_dropWhile, Prod.mk.injEq] at hspan
    obtain ⟨hbefore, hafter⟩ := hspan
    have hc : c = sep := by
      have hhead := head?_dropWhile_not (· != sep) s
      rw [hafter] at hhead
      simpa using hhead
    obtain ⟨rfl, rfl, -⟩ := h
    rw [String.toList_ofList, String.toList_ofList, ← hc, ← hafter, ← hbefore]
    exact takeWhile_append_dropWhile.symm
  · cases h

theorem splitN_of_mem {sep s} (h : sep ∈ s) : ∃ a b, splitN sep 2 s = [a, b] := by
  unfold splitN
  split
  · exact ⟨_, _, rfl⟩
  · rename_i before hspan
    rw [span_eq_takeWhile_dropWhile, Prod.mk.injEq] at hspan
    have hall := dropWhile_eq_nil_iff.1 hspan.2 sep h
    simp at hall

def base (path : String) : String :=
  if path = "" then "."
  else
    let body := path.toList.reverse.dropWhile (· == '/')
    if body.isEmpty then "/" else String.ofList (body.takeWhile (· != '/')).reverse

example : base "/ross/uncworks.git/" = "uncworks.git" := by decide

example : splitN '/' 2 "owner/repo/tree".toList = ["owner", "repo/tree"] := by decide

/-! ## Words -/

def wordsOf (l : List Char) : List (List Char) := (l.splitOnP isSpace).filter (· ≠ [])

theorem fields_eq (s : String) : fields s = (wordsOf s.toList).map String.ofList := rfl

section Words

variable {a b l : List Char} {c : Char}

theorem wordsOf_nil : wordsOf [] = [] := by simp [wordsOf]

theorem wordsOf_append_cons (hc : isSpace c = true) (a b : List Char) :
    wordsOf (a ++ c :: b) = wordsOf a ++ wordsOf b := by
  rw [wordsOf, splitOnP_append_cons _ _ hc, filter_append]
  rfl

theorem wordsOf_cons_space (hc : isSpace c = true) (l : List Char) : wordsOf (c :: l) = wordsOf l := by
  have h := wordsOf_append_cons hc [] l
  rwa [wordsOf_nil, nil_append, nil_append] at h

theorem wordsOf_spaces (h : ∀ c ∈ l, isSpace c = true) : wordsOf l = [] := by
  induction l with
  | nil => exact wordsOf_nil
  | cons c l ih =>
    rw [forall_mem_cons] at h
    rw [wordsOf_cons_space h.1, ih h.2]

theorem wordsOf_append_spaces (a : List Char) (h : ∀ c ∈ l, isSpace c = true) :
    wordsOf (a ++ l) = wordsOf a := by
  cases l with
  | nil => rw [append_nil]
  | cons c l =>
    rw [forall_mem_cons] at h
    rw [wordsOf_append_cons h.1, wordsOf_spaces h.2, append_nil]

theorem wordsOf_spaces_append (b : List Char) (h : ∀ c ∈ l, isSpace c = true) :
    wordsOf (l ++ b) = wordsOf b := by
  induction l with
  | nil => rfl
  | cons c l ih =>
    rw [forall_mem_cons] at h
    rw [cons_append, wordsOf_cons_space h.1, ih h.2]

theorem wordsOf_word (hne : l ≠ []) (h : ∀ c ∈ l, isSpace c = false) : wordsOf l = [l] := by
  rw [wordsOf, splitOnP_eq_singleton h]
  simp [hne]

theorem mem_wordsOf (h : l ∈ wordsOf a) : l ≠ [] ∧ ∀ c ∈ l, isSpace c = false := by
  obtain ⟨hmem, hne⟩ := mem_filter.1 h
  exact ⟨by simpa using hne, not_of_mem_splitOnP hmem⟩

theorem wordsOf_intercalate {ws} (h : ∀ w ∈ ws, w ≠ [] ∧ ∀ c ∈ w, isSpace c = false) :
    wordsOf ([' '].intercalate ws) = ws := by
  induction ws with
  | nil => exact wordsOf_nil
  | cons w ws ih =>
    rw [forall_mem_cons] at h
    cases ws with
    | nil => simpa using wordsOf_word h.1.1 h.1.2
    | cons v ws =>
      rw [intercalate_cons_cons, append_assoc, singleton_append,
        wordsOf_append_cons (by decide), wordsOf_word h.1.1 h.1.2, ih h.2]
      rfl

end Words

theorem fields_trimSpace (s : String) : fields (trimSpace s) = fields s := by
  have hback : ∀ l : List Char, wordsOf (l.reverse.dropWhile isSpace).reverse = wordsOf l := by
    intro l
    have hsplit : l = (l.reverse.dropWhile isSpace).reverse ++ (l.reverse.takeWhile isSpace).reverse := by
      rw [← reverse_append, takeWhile_append_dropWhile, reverse_reverse]
    conv_rhs => rw [hsplit]
    refine (wordsOf_append_spaces _ fun c hc => ?_).symm
    exact mem_takeWhile_imp (mem_reverse.1 hc)
  have hfront : ∀ l : List Char, wordsOf (l.dropWhile isSpace) = wordsOf l := by
    intro l
    conv_rhs => rw [← takeWhile_append_dropWhile (p := isSpace) (l := l)]
    exact (wordsOf_spaces_append _ fun c hc => mem_takeWhile_imp hc).symm
  rw [fields_eq, trimSpace, String.toList_ofList, hback, hfront, fields_eq]

/-! ## Lines

A `bufio.Scanner` stops at the first line that does not fit into its buffer, and only its `Err` tells
that the text goes on. -/

/-- The lines of a text, without their newlines; the last one need not have one. -/
def rawLines (text : String) : List String :=
  let parts := split '\n' text
  if parts.getLast? = some "" then parts.dropLast else parts

structure Scan where
  tokens : List String
  tooLong : Bool

def scanLines (buffer : ℕ) (text : String) : Scan :=
  let fits (line : String) : Bool := line.utf8ByteSize < buffer
  { tokens := ((rawLines text).takeWhile fits).map fun line => trimSuffix line "\r"
    tooLong := !(rawLines text).all fits }

def joinLines (lines : List String) : String :=
  String.ofList (lines.flatMap fun line => line.toList ++ ['\n'])

def maxScanTokenSize : ℕ := 64 * 1024

variable {lines : List String} {buffer : ℕ} {text : String}

theorem tooLong_scanLines :
    (scanLines buffer text).tooLong = false ↔ ∀ line ∈ rawLines text, line.utf8ByteSize < buffer := by
  simp [scanLines]

theorem tokens_scanLines (h : ∀ line ∈ rawLines text, line.utf8ByteSize < buffer) :
    (scanLines buffer text).tokens = (rawLines text).map fun line => trimSuffix line "\r" := by
  rw [scanLines, List.takeWhile_eq_self_iff.2 fun line hline => decide_eq_true (h line hline)]

theorem joinLines_eq_intercalate (lines : List String) :
    joinLines lines = String.ofList (['\n'].intercalate ((lines ++ [""]).map String.toList)) := by
  unfold joinLines
  congr 1
  induction lines with
  | nil => rfl
  | cons line lines ih =>
    rw [List.flatMap_cons, ih]
    cases lines <;> simp

theorem rawLines_joinLines (h : ∀ line ∈ lines, '\n' ∉ line.toList) :
    rawLines (joinLines lines) = lines := by
  have hsep : ∀ line ∈ lines ++ [""], '\n' ∉ line.toList := by
    intro line hline
    rcases List.mem_append.1 hline with hline | hline
    · exact h line hline
    · rw [List.mem_singleton.1 hline]
      exact List.not_mem_nil
  rw [rawLines, joinLines_eq_intercalate, split_intercalate hsep (by simp)]
  simp

theorem trimSuffix_of_not_mem {line c} (h : c ∉ line.toList) :
    trimSuffix line (String.singleton c) = line := by
  have hsuffix : ¬ [c] <:+ line.toList := fun hs => h (hs.subset (List.mem_singleton_self c))
  rw [trimSuffix, if_neg]
  simpa using hsuffix

theorem scanLines_joinLines (h : ∀ line ∈ lines, '\n' ∉ line.toList)
    (hcr : ∀ line ∈ lines, '\r' ∉ line.toList) :
    scanLines buffer (joinLines lines) =
      { tokens := lines.takeWhile fun line => line.utf8ByteSize < buffer
        tooLong := !lines.all fun line => line.utf8ByteSize < buffer } := by
  rw [scanLines, rawLines_joinLines h]
  congr 1
  calc _ = (lines.takeWhile fun line => line.utf8ByteSize < buffer).map id :=
        List.map_congr_left fun line hline =>
          trimSuffix_of_not_mem (hcr line ((List.takeWhile_sublist _).subset hline))
    _ = _ := List.map_id _

end Go
