import Uncworks.Go.Path
import Mathlib.Data.List.Chain

/-!
# Sections of a markdown artifact

`parseSections` goes through the lines once: a line of backticks toggles a fence, a heading outside
a fence opens a section, and every other line belongs to the section that was opened last.
-/

namespace Uncworks.Specutil

def reSpace (c : Char) : Bool := c ∈ ['\t', '\n', '\x0c', '\r', ' ']

/-- `fenceRE`: a line that opens or closes fenced code. -/
def isFence (line : String) : Bool := ['`', '`', '`'].isPrefixOf (line.toList.dropWhile reSpace)

/-- `headingRE`: the number of hashes, of which there are one to six before white space. -/
def headingLevel (line : String) : Option ℕ :=
  let hashes := (line.toList.takeWhile (· = '#')).length
  if 1 ≤ hashes ∧ hashes ≤ 6 ∧ ((line.toList.drop hashes).head?.any reSpace) then some hashes else none

structure Section where
  heading : String
  level : ℕ
  line : ℕ
  body : List String
  deriving DecidableEq, Repr

structure SectionScan where
  sections : List Section
  inFence : Bool

def appendLine (sections : List Section) (line : String) : List Section :=
  match sections.getLast? with
  | none => sections
  | some current => sections.dropLast ++ [{ current with body := current.body ++ [line] }]

def SectionScan.next (st : SectionScan) (line : String × ℕ) : SectionScan :=
  let inFence := if isFence line.1 then !st.inFence else st.inFence
  match if inFence then none else headingLevel line.1 with
  | some level =>
    { sections := st.sections ++
        [{ heading := Go.trimSpace line.1, level := level, line := line.2 + 1, body := [] }]
      inFence := inFence }
  | none => { sections := appendLine st.sections line.1, inFence := inFence }

def parseSections (text : String) : List Section :=
  ((Go.split '\n' text).zipIdx.foldl SectionScan.next { sections := [], inFence := false }).sections

/-! ## Marked lines -/

/-- A line and the level of the heading it is, if it is one. -/
abbrev Marked := String × Option ℕ

def mark : Bool → List String → List Marked
  | _, [] => []
  | inFence, line :: lines =>
    let inFence := if isFence line then !inFence else inFence
    (line, if inFence then none else headingLevel line) :: mark inFence lines

def markedLines (text : String) : List Marked := mark false (Go.split '\n' text)

def headingLevels (text : String) : List ℕ := (markedLines text).filterMap Prod.snd

/-- The lines up to the next heading that ends a section of level `level`. -/
def bodyUpTo (ends : ℕ → ℕ → Bool) (level : ℕ) (lines : List Marked) : List String :=
  (lines.takeWhile fun m => !m.2.any (ends level)).map Prod.fst

/-- The sections of marked lines, the first of which is line `n + 1`. -/
def sectionsUpTo (ends : ℕ → ℕ → Bool) : ℕ → List Marked → List Section
  | _, [] => []
  | n, (_, none) :: lines => sectionsUpTo ends (n + 1) lines
  | n, (line, some level) :: lines =>
    { heading := Go.trimSpace line, level := level, line := n + 1, body := bodyUpTo ends level lines } ::
      sectionsUpTo ends (n + 1) lines

/-- The sections as `Section` documents them: a body goes up to the next heading at the same level or
higher. -/
def documentedSections (text : String) : List Section :=
  sectionsUpTo (fun level next => next ≤ level) 0 (markedLines text)

/-! ## What the loop computes -/

section Loop

variable {sections : List Section} {current : Section} {lines : List String} {n : ℕ}

theorem appendLine_append_singleton (line : String) :
    appendLine (sections ++ [current]) line =
      sections ++ [{ current with body := current.body ++ [line] }] := by
  simp [appendLine]

theorem foldl_appendLine_append_singleton :
    lines.foldl appendLine (sections ++ [current]) =
      sections ++ [{ current with body := current.body ++ lines }] := by
  induction lines generalizing current with
  | nil => simp
  | cons line lines ih =>
    rw [List.foldl_cons, appendLine_append_singleton, ih]
    simp

/-- From any point of the loop: the lines before the next heading go to the section opened last. -/
theorem foldl_next (st : SectionScan) :
    ((lines.zipIdx n).foldl SectionScan.next st).sections =
      (bodyUpTo (fun _ _ => true) 0 (mark st.inFence lines)).foldl appendLine st.sections ++
        sectionsUpTo (fun _ _ => true) n (mark st.inFence lines) := by
  induction lines generalizing st n with
  | nil => simp [mark, bodyUpTo, sectionsUpTo]
  | cons line lines ih =>
    rw [List.zipIdx_cons, List.foldl_cons, ih, mark]
    cases hlevel : if (if isFence line then !st.inFence else st.inFence) then none
      else headingLevel line with
    | none =>
      have hnext : st.next (line, n) =
          { sections := appendLine st.sections line
            inFence := if isFence line then !st.inFence else st.inFence } := by
        simp only [SectionScan.next, hlevel]
      rw [hnext]
      simp [bodyUpTo, sectionsUpTo]
    | some level =>
      have hnext : st.next (line, n) =
          { sections := st.sections ++ [⟨Go.trimSpace line, level, n + 1, []⟩]
            inFence := if isFence line then !st.inFence else st.inFence } := by
        simp only [SectionScan.next, hlevel]
      rw [hnext, foldl_appendLine_append_singleton]
      simp [bodyUpTo, sectionsUpTo]

theorem parseSections_eq (text : String) :
    parseSections text = sectionsUpTo (fun _ _ => true) 0 (markedLines text) := by
  have hnil : ∀ l : List String, l.foldl appendLine [] = [] := by
    intro l
    induction l with
    | nil => rfl
    | cons line l ih => exact ih
  rw [parseSections, foldl_next, hnil]
  rfl

end Loop

/-! ## Bodies as documented -/

section Documented

variable {level : ℕ} {lines : List Marked}

theorem bodyUpTo_eq_iff :
    bodyUpTo (fun _ _ => true) level lines = bodyUpTo (fun level next => next ≤ level) level lines ↔
      ∀ next ∈ (lines.filterMap Prod.snd).head?, next ≤ level := by
  induction lines with
  | nil => simp [bodyUpTo]
  | cons m lines ih =>
    obtain ⟨line, _ | next⟩ := m
    · simpa [bodyUpTo] using ih
    · by_cases hle : next ≤ level
      all_goals simp [bodyUpTo]

theorem sectionsUpTo_eq_iff {n} :
    sectionsUpTo (fun _ _ => true) n lines = sectionsUpTo (fun level next => next ≤ level) n lines ↔
      (lines.filterMap Prod.snd).IsChain fun level next => next ≤ level := by
  induction lines generalizing n with
  | nil => simp [sectionsUpTo]
  | cons m lines ih =>
    obtain ⟨line, _ | level⟩ := m
    · simpa [sectionsUpTo] using ih
    · simp [sectionsUpTo, ih, bodyUpTo_eq_iff, List.isChain_cons]

/-- The sections are as documented exactly if no heading outside fenced code is followed, as the next
such heading, by a deeper one. -/
theorem parseSections_documented_iff (text : String) :
    parseSections text = documentedSections text ↔
      (headingLevels text).IsChain fun level next => next ≤ level := by
  rw [parseSections_eq]
  exact sectionsUpTo_eq_iff

end Documented

end Uncworks.Specutil
