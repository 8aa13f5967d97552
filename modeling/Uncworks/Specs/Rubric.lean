import Uncworks.Specs.Sections

/-!
# Changes and their rubric

A change is a directory under `openspec/changes` with a few markdown artifacts.  `load` reads it,
`Artifact.section` and `Section.bullets` look into an artifact, and `checkDesign` and `checkReview` are
the rules of the rubric that read the body of one section: that a decision names the alternative it
rejects, and that the decision of the owner is recorded.
-/

namespace Uncworks.Specutil

structure Lib extends Go.Lib where
  /-- The smallest rune of the orbit of `unicode.SimpleFold`. -/
  foldRune : Char → Char
  toLowerRune_ascii : ∀ c, c.toNat < 128 → toLowerRune c = c.toLower

def Lib.equalFold (lib : Lib) (s t : String) : Bool :=
  s.toList.map lib.foldRune = t.toList.map lib.foldRune

theorem Lib.equalFold_refl (lib : Lib) (s : String) : lib.equalFold s s = true := by
  simp [Lib.equalFold]

structure Artifact where
  id : String
  path : String
  text : String
  sections : List Section

structure Change where
  name : String
  dir : String
  artifacts : String → Option Artifact

def artifactNames : List String := ["proposal", "citations", "design", "tasks", "review"]

/-- What `os.Stat` says of a path (whether it is a directory) and what `os.ReadFile` reads. -/
structure Disk where
  stat : String → Except String Bool
  readFile : String → Option String

/-- An artifact of a change; the lockfile of the citations is not markdown. -/
def loadArtifact (disk : Disk) (dir name : String) : Option Artifact :=
  if name ∈ artifactNames ∧ name ≠ "citations" then
    let path := Go.joinPath [dir, name ++ ".md"]
    (disk.readFile path).map fun text =>
      { id := name, path := path, text := text, sections := parseSections text }
  else none

def load (disk : Disk) (dir : String) : Except String Change :=
  match disk.stat dir with
  | .error err => .error ("reading change directory: " ++ err)
  | .ok false => .error ("not a change directory: " ++ dir ++ " is not a directory")
  | .ok true => .ok { name := Go.base dir, dir := dir, artifacts := loadArtifact disk dir }

theorem sections_of_load {disk dir name change a} (hload : load disk dir = .ok change)
    (ha : change.artifacts name = some a) : a.sections = parseSections a.text := by
  have hartifacts : change.artifacts = loadArtifact disk dir := by
    unfold load at hload
    split at hload
    · cases hload
    · cases hload
    · obtain rfl := Except.ok.inj hload
      rfl
  rw [hartifacts, loadArtifact] at ha
  split at ha
  · obtain ⟨text, -, rfl⟩ := Option.map_eq_some_iff.1 ha
    rfl
  · cases ha

def Artifact.section (lib : Lib) (a : Artifact) (heading : String) : Option Section :=
  a.sections.find? fun s => lib.equalFold s.heading heading

def bullet? (line : String) : Option String :=
  let trimmed := line.toList.dropWhile fun c => c = ' ' ∨ c = '\t'
  if 1 < line.toList.length - trimmed.length then none
  else if ['-', ' '].isPrefixOf trimmed ∨ ['*', ' '].isPrefixOf trimmed then
    some (Go.trimSpace (String.ofList (trimmed.drop 2)))
  else none

def bulletsOf : Bool → List String → List String
  | _, [] => []
  | inFence, line :: lines =>
    if isFence line then bulletsOf (!inFence) lines
    else if inFence then bulletsOf inFence lines
    else (bullet? line).toList ++ bulletsOf inFence lines

def Section.bullets (s : Section) : List String := bulletsOf false s.body

/-! ## Rules -/

inductive Severity
  | error
  | warn
  deriving DecidableEq, Repr

structure Finding where
  rule : String
  severity : Severity
  file : String
  line : ℕ
  message : String
  deriving DecidableEq, Repr

def truncate (s : String) (n : ℕ) : String :=
  let s := Go.trimSpace s
  if s.utf8ByteSize ≤ n then s else String.ofList (Go.takeBytes n s.toList) ++ "..."

def missingSections (lib : Lib) (rule file : String) (a : Artifact) (headings : List String) :
    List Finding :=
  (headings.filter fun heading => (a.section lib heading).isNone).map fun heading =>
    { rule := rule, severity := .error, file := a.path, line := 0
      message := file ++ " has no " ++ lib.quote heading ++ " section" }

/-- A decision without an alternative, if there is one. -/
def undecided (lib : Lib) (path : String) (line : ℕ) (pending : String) : List Finding :=
  if pending = "" then []
  else [{ rule := "decision-has-alternative", severity := .error, file := path, line := line
          message := "the decision " ++ lib.quote (truncate pending 60) ++
            " records no rejected alternative" }]

/-- The loop over the lines of the decisions, with the decision whose alternative is still to come. -/
def checkDecisions (lib : Lib) (path : String) : ℕ → String → List String → List Finding
  | line, pending, [] => undecided lib path line pending
  | line, pending, text :: lines =>
    let trimmed := Go.trimSpace text
    if Go.hasPrefix trimmed "- Decision:" then
      undecided lib path line pending ++
        checkDecisions lib path (line + 1) (Go.trimSpace (Go.trimPrefix trimmed "- Decision:")) lines
    else if Go.hasPrefix trimmed "- Alternative rejected:" then
      checkDecisions lib path (line + 1) "" lines
    else checkDecisions lib path (line + 1) pending lines

def checkDesign (lib : Lib) (change : Change) : List Finding :=
  match change.artifacts "design" with
  | none =>
    [{ rule := "design-sections", severity := .error, file := "design.md", line := 0
       message := "the change has no design.md" }]
  | some design =>
    missingSections lib "design-sections" "design.md" design
        ["## Context", "## Decisions", "## Rollout & Gating", "## Risks / Trade-offs"] ++
      match design.section lib "## Decisions" with
      | none => []
      | some decisions => checkDecisions lib design.path decisions.line "" decisions.body

def isPending (lib : Lib) (decision : Section) : Bool :=
  let body := lib.toLower (" ".intercalate decision.body)
  Go.contains body "pending" || Go.trimSpace body = ""

def checkReview (lib : Lib) (change : Change) : List Finding :=
  match change.artifacts "review" with
  | none =>
    [{ rule := "review-exists", severity := .error, file := "review.md", line := 0
       message := "the change has no review.md. Findings recorded as prose inside the design " ++
        "cannot be read as a set, which is why they live in their own artifact" }]
  | some review =>
    missingSections lib "review-exists" "review.md" review
        ["## Rubric", "## Recommendation", "## Owner decision"] ++
      match review.section lib "## Owner decision" with
      | none => []
      | some decision =>
        if isPending lib decision then
          [{ rule := "review-decision-current", severity := .error, file := review.path
             line := decision.line
             message := "the owner decision is still pending. Model critique is evidence, never " ++
              "approval, so a phase whose review is pending is not done" }]
        else []

/-! ## What a sub-heading hides -/

def asciiLib : Lib where
  toLowerRune := Char.toLower
  urlPath _ := none
  quote s := "\"" ++ s ++ "\""
  foldRune := Char.toLower
  toLowerRune_ascii _ _ := rfl

def twoArtifacts (design review : String) : Change where
  name := "c"
  dir := "c"
  artifacts name :=
    if name = "design" then some ⟨"design", "c/design.md", design, parseSections design⟩
    else if name = "review" then some ⟨"review", "c/review.md", review, parseSections review⟩
    else none

/-- A design whose only decision stands under a sub-heading, without an alternative. -/
def nestedDesign : String :=
  "## Context\n## Decisions\n### Store\n- Decision: keep files\n## Rollout & Gating\n" ++
    "## Risks / Trade-offs\n"

def nestedReview : String :=
  "## Rubric\n## Recommendation\n## Owner decision\nmerge\n### Follow-up\npending\n"

/-- Neither text is split as documented: the decision that names no alternative and the pending note
are in no body that the rules read. -/
theorem subheading_hides :
    parseSections nestedDesign ≠ documentedSections nestedDesign ∧
      parseSections nestedReview ≠ documentedSections nestedReview ∧
      checkDesign asciiLib (twoArtifacts nestedDesign nestedReview) = [] ∧
      checkReview asciiLib (twoArtifacts nestedDesign nestedReview) = [] ∧
      (∃ s ∈ documentedSections nestedDesign,
        s.heading = "## Decisions" ∧ "- Decision: keep files" ∈ s.body) ∧
      ∃ s ∈ documentedSections nestedReview,
        s.heading = "## Owner decision" ∧ isPending asciiLib s := by
  decide +kernel

end Uncworks.Specutil
