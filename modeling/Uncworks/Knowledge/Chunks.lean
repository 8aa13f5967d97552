import Uncworks.Go.Strings
import Mathlib.Algebra.BigOperators.Group.List.Basic
import Mathlib.Tactic.Ring

/-!
# Chunks of a log

Before a log is embedded it is cut into chunks at the ends of its paragraphs (`internal/embeddings`).
`ChunkText` counts tokens while it fills a chunk: it adds the estimates of the paragraphs, each of them
rounded down, and starts the next chunk with the last words of the one before.
-/

namespace Uncworks.Embeddings

open Go List

/-- The estimate for a number of words; the quotient by 0.75 is exact up to the rounding to an integer. -/
def tokensOf (words : ℕ) : ℕ := max 1 (4 * words / 3)

def wordCount (text : String) : ℕ := (fields text).length

def estimateTokens (text : String) : ℕ := tokensOf (wordCount text)

def overlapWords (overlapTokens : ℕ) : ℕ := 3 * overlapTokens / 4

def getOverlapText (text : String) (overlapTokens : ℕ) : String :=
  let words := fields text
  if words.length ≤ overlapWords overlapTokens then text
  else " ".intercalate (words.drop (words.length - overlapWords overlapTokens))

def splitBlank : List Char → List (List Char)
  | '\n' :: '\n' :: rest => [] :: splitBlank rest
  | c :: rest => (splitBlank rest).modifyHead (c :: ·)
  | [] => [[]]

structure ChunkState where
  chunks : List String := []
  current : String := ""
  currentTokens : ℕ := 0

open ChunkState

/-- The chunk in progress is finished, and the next one begins with its last words. -/
def ChunkState.flush (overlapTokens : ℕ) (st : ChunkState) : ChunkState where
  chunks := st.chunks ++ [trimSpace st.current]
  current := getOverlapText st.current overlapTokens
  currentTokens := estimateTokens (getOverlapText st.current overlapTokens)

def ChunkState.write (para : String) (st : ChunkState) : ChunkState where
  chunks := st.chunks
  current := (if st.current = "" then "" else st.current ++ "\n\n") ++ para
  currentTokens := st.currentTokens + estimateTokens para

section

variable (maxTokens overlapTokens : ℕ) (st : ChunkState) (para : String)

/-- A paragraph goes to the chunk in progress or, if that would get too long, to the next one. -/
def ChunkState.put : ChunkState :=
  if maxTokens < st.currentTokens + estimateTokens para ∧ 0 < st.currentTokens then
    (st.flush overlapTokens).write para
  else st.write para

def ChunkState.next : ChunkState :=
  let para := trimSpace para
  if para = "" then st else st.put maxTokens overlapTokens para

def ChunkState.finish : List String :=
  if st.current = "" then st.chunks else st.chunks ++ [trimSpace st.current]

end

def maxTokensOf (maxTokens : ℤ) : ℕ := if maxTokens ≤ 0 then 512 else maxTokens.toNat

def overlapTokensOf (overlapTokens : ℤ) : ℕ := if overlapTokens ≤ 0 then 64 else overlapTokens.toNat

section

variable (content : String) (maxTokens overlapTokens : ℤ)

def chunkText : List String :=
  (((splitBlank content.toList).map String.ofList).foldl
    (ChunkState.next (maxTokensOf maxTokens) (overlapTokensOf overlapTokens)) {}).finish

def paragraphs : List String :=
  (((splitBlank content.toList).map String.ofList).map trimSpace).filter (· ≠ "")

theorem chunkText_eq :
    chunkText content maxTokens overlapTokens = ((paragraphs content).foldl
      (put (maxTokensOf maxTokens) (overlapTokensOf overlapTokens)) {}).finish := by
  have hfold : ∀ (m o : ℕ) (parts : List String) (st : ChunkState), parts.foldl (ChunkState.next m o) st =
      ((parts.map trimSpace).filter (· ≠ "")).foldl (put m o) st := by
    intro m o parts
    induction parts with
    | nil => exact fun st => rfl
    | cons part parts ih =>
      intro st
      rw [foldl_cons, ih, ChunkState.next]
      by_cases hpara : trimSpace part = "" <;> simp [hpara]
  rw [chunkText, hfold, paragraphs]

end

/-! ## Filling by numbers of words -/

/-- A chunk by numbers of words: those taken over, unless it is the first one, and those of its
paragraphs. -/
structure Fill where
  overlap : Option ℕ := none
  paras : List ℕ := []
  deriving DecidableEq, Repr

namespace Fill

section

variable (f : Fill)

def total : ℕ := f.overlap.getD 0 + f.paras.sum

def counted : ℕ := (f.overlap.map tokensOf).getD 0 + (f.paras.map tokensOf).sum

def rounded : ℕ := 4 * f.overlap.getD 0 / 3 + (f.paras.map fun w => 4 * w / 3).sum

/-- The whole tokens that rounding has dropped: a third for each word of a part beyond a multiple of
three. -/
def dropped : ℕ := (f.overlap.getD 0 % 3 + (f.paras.map (· % 3)).sum) / 3

def add (words : ℕ) : Fill := { f with paras := f.paras ++ [words] }

def after (overlapTokens : ℕ) : Fill :=
  { overlap := some (min (overlapWords overlapTokens) f.total) }

end

end Fill

/-- Divide paragraphs, by their numbers of words, among chunks: a chunk takes paragraphs as long as
the tokens it counts do not exceed the limit. -/
def fill (maxTokens overlapTokens : ℕ) : Fill → List ℕ → List Fill
  | f, [] => [f]
  | f, w :: ws =>
    if maxTokens < f.counted + tokensOf w ∧ 0 < f.counted then
      f :: fill maxTokens overlapTokens ((f.after overlapTokens).add w) ws
    else fill maxTokens overlapTokens (f.add w) ws

/-! ## Words of texts -/

section Words

variable {st : ChunkState} {f : Fill} {m o : ℕ} {para : String}

theorem wordCount_trimSpace (text : String) : wordCount (trimSpace text) = wordCount text := by
  rw [wordCount, fields_trimSpace, wordCount]

theorem wordCount_append_blank (a b : String) :
    wordCount (a ++ "\n\n" ++ b) = wordCount a + wordCount b := by
  have htext : (a ++ "\n\n" ++ b).toList = a.toList ++ '\n' :: '\n' :: b.toList := by
    rw [String.toList_append, String.toList_append, append_assoc]
    rfl
  have hspace : isSpace '\n' = true := by decide
  rw [wordCount, fields_eq, htext, wordsOf_append_cons hspace, wordsOf_cons_space hspace]
  simp [wordCount, fields_eq]

theorem wordCount_empty : wordCount "" = 0 := by decide

theorem wordCount_getOverlapText (text : String) (o : ℕ) :
    wordCount (getOverlapText text o) = min (overlapWords o) (wordCount text) := by
  unfold getOverlapText
  simp only
  split
  · next hle => exact (Nat.min_eq_right hle).symm
  · next hlt =>
    have hdrop : ((wordsOf text.toList).drop
        ((wordsOf text.toList).length - overlapWords o)).length = overlapWords o := by
      rw [fields_eq, length_map] at hlt
      rw [length_drop]
      omega
    have hwords : ∀ w ∈ (wordsOf text.toList).drop
        ((wordsOf text.toList).length - overlapWords o),
        w ≠ [] ∧ ∀ c ∈ w, isSpace c = false := fun w hw =>
      mem_wordsOf (mem_of_mem_drop hw)
    have hjoined : (" ".intercalate ((fields text).drop
        ((fields text).length - overlapWords o))).toList =
        [' '].intercalate ((wordsOf text.toList).drop
          ((wordsOf text.toList).length - overlapWords o)) := by
      rw [String.toList_intercalate, fields_eq, ← map_drop, map_map]
      simp
    rw [wordCount, fields_eq, hjoined, wordsOf_intercalate hwords, length_map, hdrop]
    rw [Nat.min_eq_left]
    exact Nat.le_of_lt (not_le.1 hlt)

end Words

/-! ## Paragraphs at the end of a chunk -/

def EndsWith (g : List String) (chunk : String) : Prop :=
  g ≠ [] ∧ ∃ pre, chunk = pre ++ "\n\n".intercalate g

/-- The chunks end with consecutive paragraphs each, and these are all paragraphs in order. -/
def Unbroken (paras chunks : List String) : Prop :=
  ∃ groups : List (List String), groups.flatten = paras ∧ Forall₂ EndsWith groups chunks

structure Solid (text : String) : Prop where
  ne : text.toList ≠ []
  head : ∀ c ∈ text.toList.head?, isSpace c = false
  last : ∀ c ∈ text.toList.getLast?, isSpace c = false

section Solid

variable {a b text : String} {g : List String}

theorem solid_of_mem_paragraphs {content} (h : text ∈ paragraphs content) : Solid text := by
  obtain ⟨hmem, hne⟩ := mem_filter.1 h
  obtain ⟨part, -, rfl⟩ := mem_map.1 hmem
  have hlist : (trimSpace part).toList = trimFunc isSpace part.toList := String.toList_ofList
  refine ⟨fun hnil => by simp [String.toList_eq_nil_iff.1 hnil] at hne, ?_, ?_⟩
  · rw [hlist]
    exact fun c hc => head_trimFunc hc
  · rw [hlist]
    exact fun c hc => getLast_trimFunc hc

theorem Solid.append (ha : Solid a) (mid : String) (hb : Solid b) : Solid (a ++ mid ++ b) := by
  have hlist : (a ++ mid ++ b).toList = a.toList ++ (mid.toList ++ b.toList) := by
    rw [String.toList_append, String.toList_append, append_assoc]
  refine ⟨?_, ?_, ?_⟩
  · rw [hlist]
    exact append_ne_nil_of_left_ne_nil ha.ne _
  · rw [hlist, head?_append_of_ne_nil _ ha.ne]
    exact ha.head
  · rw [hlist, ← append_assoc, getLast?_append_of_ne_nil _ hb.ne]
    exact hb.last

theorem solid_intercalate (hg : g ≠ []) (h : ∀ p ∈ g, Solid p) : Solid ("\n\n".intercalate g) := by
  induction g with
  | nil => exact absurd rfl hg
  | cons p g ih =>
    rw [forall_mem_cons] at h
    by_cases hnil : g = []
    · rw [hnil]
      exact h.1
    · rw [String.intercalate_cons_of_ne_nil hnil]
      exact h.1.append "\n\n" (ih hnil h.2)

theorem trimSpace_append (x : String) (h : Solid text) :
    ∃ x', trimSpace (x ++ text) = x' ++ text := by
  obtain ⟨c, cs, hcs⟩ := exists_cons_of_ne_nil h.ne
  have hself : text.toList.dropWhile isSpace = text.toList := by
    rw [hcs]
    simp [h.head c (by rw [hcs]; rfl)]
  obtain ⟨x', hfront⟩ : ∃ x', (x ++ text).toList.dropWhile isSpace = x' ++ text.toList := by
    rw [String.toList_append, dropWhile_append, hself]
    split
    · exact ⟨[], rfl⟩
    · exact ⟨_, rfl⟩
  have hback : (x' ++ text.toList).rdropWhile isSpace = x' ++ text.toList := by
    rw [rdropWhile_eq_self_iff]
    intro hne
    rw [getLast_append_of_right_ne_nil _ _ h.ne, h.last _ (getLast?_eq_some_getLast h.ne)]
    exact Bool.false_ne_true
  refine ⟨String.ofList x', String.toList_inj.1 ?_⟩
  rw [trimSpace, hfront, String.toList_ofList, String.toList_append, String.toList_ofList]
  exact hback

end Solid

/-! ## The loop -/

/-- `done` are the paragraphs of the finished chunks, `g` those of the chunk in progress, with the
words and tokens of the filling `f`. -/
structure Filling (st : ChunkState) (done : List (List String)) (g : List String) (f : Fill) :
    Prop where
  finished : Forall₂ EndsWith done st.chunks
  current : ∃ pre, st.current = pre ++ "\n\n".intercalate g
  ne : g ≠ []
  solid : ∀ p ∈ g, Solid p
  words : wordCount st.current = f.total
  tokens : st.currentTokens = f.counted

namespace Filling

variable {st : ChunkState} {done : List (List String)} {g : List String} {f : Fill} {para : String}
  {m o : ℕ}

theorem current_ne (h : Filling st done g f) : st.current ≠ "" := by
  obtain ⟨pre, hcurrent⟩ := h.current
  intro hempty
  have hnil := congrArg String.toList (hcurrent.symm.trans hempty)
  rw [String.toList_append] at hnil
  exact (solid_intercalate h.ne h.solid).ne (append_eq_nil_iff.1 hnil).2

theorem finish (h : Filling st done g f) :
    Forall₂ EndsWith (done ++ [g]) (st.chunks ++ [trimSpace st.current]) := by
  obtain ⟨pre, hcurrent⟩ := h.current
  obtain ⟨x', hx'⟩ := trimSpace_append pre (solid_intercalate h.ne h.solid)
  refine rel_append h.finished (.cons ⟨h.ne, x', ?_⟩ .nil)
  rw [hcurrent, hx']

theorem first (hpara : Solid para) :
    Filling (write para {}) [] [para] (({} : Fill).add (wordCount para)) where
  finished := .nil
  current := ⟨"", by simp [write]⟩
  ne := cons_ne_nil _ _
  solid := forall_mem_singleton.2 hpara
  words := by simp [write, Fill.add, Fill.total]
  tokens := by simp [write, Fill.add, Fill.counted, estimateTokens]

theorem write (h : Filling st done g f) (hpara : Solid para) :
    Filling (st.write para) done (g ++ [para]) (f.add (wordCount para)) where
  finished := h.finished
  current := by
    obtain ⟨pre, hcurrent⟩ := h.current
    refine ⟨pre, ?_⟩
    rw [ChunkState.write, if_neg h.current_ne, hcurrent,
      String.intercalate_append_of_ne_nil h.ne (cons_ne_nil _ _), String.intercalate_singleton]
    simp [String.append_assoc]
  ne := append_ne_nil_of_left_ne_nil h.ne _
  solid := forall_mem_append.2 ⟨h.solid, forall_mem_singleton.2 hpara⟩
  words := by
    rw [ChunkState.write, if_neg h.current_ne, wordCount_append_blank, h.words]
    simp [Fill.add, Fill.total, Nat.add_assoc]
  tokens := by
    simp [ChunkState.write, Fill.add, Fill.counted, h.tokens, estimateTokens, Nat.add_assoc]

theorem flush_write (h : Filling st done g f) (hpara : Solid para) :
    Filling ((st.flush o).write para) (done ++ [g]) [para] ((f.after o).add (wordCount para)) where
  finished := h.finish
  current := by
    exact ⟨_, rfl⟩
  ne := cons_ne_nil _ _
  solid := forall_mem_singleton.2 hpara
  words := by
    have hoverlap : wordCount (st.flush o).current = min (overlapWords o) f.total := by
      rw [flush, wordCount_getOverlapText, h.words]
    have hsum : wordCount ((st.flush o).write para).current =
        wordCount (st.flush o).current + wordCount para := by
      by_cases hempty : (st.flush o).current = ""
      · simp [ChunkState.write, hempty, wordCount_empty]
      · rw [ChunkState.write, if_neg hempty, wordCount_append_blank]
    rw [hsum, hoverlap]
    simp [Fill.after, Fill.add, Fill.total]
  tokens := by
    rw [ChunkState.write, ChunkState.flush, estimateTokens, wordCount_getOverlapText, h.words]
    simp [Fill.after, Fill.add, Fill.counted, estimateTokens]

/-- The remaining paragraphs follow those of the chunk in progress, divided as their numbers of
words are. -/
theorem foldl_put (h : Filling st done g f) {paras} (hparas : ∀ p ∈ paras, Solid p) :
    Unbroken (done.flatten ++ g ++ paras) (paras.foldl (put m o) st).finish ∧
      ((paras.foldl (put m o) st).finish).map wordCount =
        st.chunks.map wordCount ++ (fill m o f (paras.map wordCount)).map Fill.total := by
  induction paras generalizing st done g f with
  | nil =>
    rw [foldl_nil, ChunkState.finish, if_neg h.current_ne]
    refine ⟨⟨done ++ [g], by simp, h.finish⟩, ?_⟩
    rw [map_append, map_singleton, wordCount_trimSpace, h.words]
    rfl
  | cons para paras ih =>
    rw [forall_mem_cons] at hparas
    rw [foldl_cons, map_cons, fill, ← h.tokens, put, estimateTokens]
    split
    · obtain ⟨hunbroken, hcounts⟩ := ih (h.flush_write (o := o) hparas.1) hparas.2
      refine ⟨by simpa using hunbroken, hcounts.trans ?_⟩
      simp [ChunkState.write, ChunkState.flush, wordCount_trimSpace, h.words]
    · obtain ⟨hunbroken, hcounts⟩ := ih (h.write hparas.1) hparas.2
      exact ⟨by simpa using hunbroken, hcounts⟩

end Filling

section Rounding

variable {f : Fill} {m : ℕ}

/-- Rounding the parts one by one drops a third for each word beyond a multiple of three. -/
theorem four_mul_sum_div (l : List ℕ) :
    4 * l.sum / 3 = (l.map fun w => 4 * w / 3).sum + (l.map (· % 3)).sum / 3 := by
  have hsum : 4 * l.sum = 3 * (l.map fun w => 4 * w / 3).sum + (l.map (· % 3)).sum := by
    induction l with
    | nil => rfl
    | cons w l ih =>
      simp only [sum_cons, map_cons]
      omega
  omega

theorem tokensOf_total_le_iff (hm : 1 ≤ m) : tokensOf f.total ≤ m ↔ f.rounded + f.dropped ≤ m := by
  have hparts := four_mul_sum_div (f.overlap.getD 0 :: f.paras)
  simp only [sum_cons, map_cons] at hparts
  unfold tokensOf Fill.total Fill.rounded Fill.dropped
  omega

theorem one_le_maxTokensOf (maxTokens : ℤ) : 1 ≤ maxTokensOf maxTokens := by
  unfold maxTokensOf
  split <;> omega

end Rounding

/-- The chunks hold the paragraphs in order and unbroken, and none is estimated above the limit,
exactly if in every group that the paragraphs are filled into the limit leaves room for the tokens
that rounding has dropped. -/
theorem chunkText_iff (content : String) (maxTokens overlapTokens : ℤ) :
    ((∀ chunk ∈ chunkText content maxTokens overlapTokens,
        estimateTokens chunk ≤ maxTokensOf maxTokens) ∧
      Unbroken (paragraphs content) (chunkText content maxTokens overlapTokens)) ↔
    ∀ f ∈ fill (maxTokensOf maxTokens) (overlapTokensOf overlapTokens) {}
        ((paragraphs content).map wordCount),
      f.rounded + f.dropped ≤ maxTokensOf maxTokens := by
  have hone := one_le_maxTokensOf maxTokens
  simp only [← tokensOf_total_le_iff hone, chunkText_eq]
  cases hparas : paragraphs content with
  | nil =>
    have hunbroken : Unbroken [] [] := ⟨[], rfl, .nil⟩
    simpa [ChunkState.finish, fill, Fill.total, tokensOf, hunbroken] using hone
  | cons para paras =>
    have hsolid : ∀ p ∈ para :: paras, Solid p := fun p hp => solid_of_mem_paragraphs (hparas ▸ hp)
    rw [List.forall_mem_cons] at hsolid
    obtain ⟨hunbroken, hcounts⟩ := (Filling.first hsolid.1).foldl_put
      (m := maxTokensOf maxTokens) (o := overlapTokensOf overlapTokens) hsolid.2
    have hput : ChunkState.put (maxTokensOf maxTokens) (overlapTokensOf overlapTokens) {} para =
        ChunkState.write para {} := if_neg (by simp)
    have hfill : ¬ (maxTokensOf maxTokens < ({} : Fill).counted + tokensOf (wordCount para) ∧
        0 < ({} : Fill).counted) := by simp [Fill.counted]
    rw [List.foldl_cons, hput, and_iff_left (by simpa using hunbroken), List.map_cons, fill, if_neg hfill]
    have hestimates := List.forall_mem_map (l := (paras.foldl (ChunkState.put (maxTokensOf maxTokens)
      (overlapTokensOf overlapTokens)) (ChunkState.write para {})).finish) (f := wordCount)
      (P := fun w => tokensOf w ≤ maxTokensOf maxTokens)
    rw [hcounts] at hestimates
    simpa [estimateTokens, ChunkState.write] using hestimates.symm

/-- Three paragraphs of a word are counted as three tokens and make a chunk of four. -/
theorem three_words_exceed :
    (∀ para ∈ paragraphs "a\n\nb\n\nc", (estimateTokens para : ℤ) ≤ 3 - 1) ∧
      ∃ chunk ∈ chunkText "a\n\nb\n\nc" 3 1, ¬ (estimateTokens chunk : ℤ) ≤ 3 := by
  decide +kernel

end Uncworks.Embeddings
