import Uncworks.Go.Strings

/-!
# Checkpoints

`createGitCheckpoint` commits what a tool execution has changed, and its span gets the commit and the
diff since the checkpoint before.  `parseDiffOutput` cuts the output of `git diff` wherever the text `diff --git ` occurs, trims the
pieces, and takes the second word of a piece for the path of its file.
-/

namespace Uncworks

open List

/-! ## What git prints -/

inductive DiffLine where
  /-- A line of the extended header, or the head of a hunk. -/
  | header (text : String)
  | context (text : String)
  | added (text : String)
  | removed (text : String)

def DiffLine.text : DiffLine → String
  | .header text => text
  | .context text => " " ++ text
  | .added text => "+" ++ text
  | .removed text => "-" ++ text

def DiffLine.isAdded : DiffLine → Bool
  | .added _ => true
  | _ => false

def DiffLine.isRemoved : DiffLine → Bool
  | .removed _ => true
  | _ => false

structure ChangedFile where
  oldPath : String
  newPath : String
  lines : List DiffLine

namespace ChangedFile

/-- `quote` is what git does to names with control characters; it leaves blanks as they are. -/
def diff (quote : String → String) (f : ChangedFile) : List String :=
  ("diff --git " ++ quote ("a/" ++ f.oldPath) ++ " " ++ quote ("b/" ++ f.newPath)) ::
    f.lines.map DiffLine.text

end ChangedFile

def gitDiff (quote : String → String) (files : List ChangedFile) : String :=
  Go.joinLines (files.flatMap (ChangedFile.diff quote))

/-! ## What is read -/

/-- `strings.Split`; `skip` characters of a separator are still to be passed over. -/
def splitText (sep : List Char) : (skip : ℕ) → List Char → List (List Char)
  | _, [] => [[]]
  | skip + 1, _ :: cs => splitText sep skip cs
  | 0, c :: cs =>
    if sep.isPrefixOf (c :: cs) then [] :: splitText sep (sep.length - 1) cs
    else (splitText sep 0 cs).modifyHead (c :: ·)

structure FileDiff where
  path : String
  patch : String
  deriving DecidableEq

def fileDiff (part : String) : FileDiff where
  path := match Go.fields ((Go.splitN '\n' 2 part.toList).headD "") with
    | _ :: path :: _ => Go.trimPrefix path "b/"
    | _ => ""
  patch := "diff --git " ++ part

def parseDiffOutput (output : String) : List FileDiff :=
  (((splitText "diff --git ".toList 0 output.toList).map fun part =>
    Go.trimSpace (String.ofList part)).filter (· ≠ "")).map fileDiff

/-- The counter for `diff.additions` and, with a minus, the one for `diff.deletions`. -/
def countSigned (sign : String) (files : List FileDiff) : ℕ :=
  (files.flatMap fun f => Go.split '\n' f.patch).countP fun line =>
    Go.hasPrefix line sign && !Go.hasPrefix line (sign ++ sign ++ sign)

structure ReadsDiff (files : List ChangedFile) (output : String) (read : List FileDiff) : Prop where
  paths : read.map FileDiff.path = files.map ChangedFile.newPath
  patches : String.ofList (read.flatMap (·.patch.toList)) = output
  additions : countSigned "+" read = (files.flatMap (·.lines)).countP DiffLine.isAdded
  deletions : countSigned "-" read = (files.flatMap (·.lines)).countP DiffLine.isRemoved

theorem getLast?_gitDiff (quote) {files} (h : files ≠ []) :
    (gitDiff quote files).toList.getLast? = some '\n' := by
  have hlines : files.flatMap (ChangedFile.diff quote) ≠ [] := by
    obtain ⟨f, files, rfl⟩ := exists_cons_of_ne_nil h
    simp [ChangedFile.diff]
  obtain ⟨lines, line, hlast⟩ := (eq_nil_or_concat _).resolve_left hlines
  simp [gitDiff, Go.joinLines, hlast]

theorem getLast?_patch (parts : List String) {c : Char}
    (hc : c ∈ ((((parts.map Go.trimSpace).filter (· ≠ "")).map fileDiff).flatMap
      (·.patch.toList)).getLast?) : Go.isSpace c = false := by
  induction parts using reverseRecOn with
  | nil => simp at hc
  | append_singleton parts part ih =>
    by_cases hpart : Go.trimSpace part = ""
    · exact ih (by simpa [hpart] using hc)
    · have hne : (Go.trimSpace part).toList ≠ [] := fun h => hpart (String.toList_eq_nil_iff.1 h)
      have hlast : c ∈ (Go.trimSpace part).toList.getLast? := by
        simpa [hpart, fileDiff, getLast?_cons, getLast?_eq_some_getLast hne] using hc
      rw [Go.trimSpace, String.toList_ofList] at hlast
      exact Go.getLast_trimFunc hlast

/-- The patches end in a character that is no white space, and the diff in a newline. -/
theorem readsDiff_iff (quote : String → String) (files : List ChangedFile) :
    ReadsDiff files (gitDiff quote files) (parseDiffOutput (gitDiff quote files)) ↔ files = [] := by
  constructor
  · intro h
    by_contra hne
    have hspace : Go.isSpace '\n' = false := by
      refine getLast?_patch
        ((splitText "diff --git ".toList 0 (gitDiff quote files).toList).map String.ofList) ?_
      have hlast := getLast?_gitDiff quote hne
      rw [← h.patches, String.toList_ofList] at hlast
      rwa [map_map]
    exact absurd hspace (by decide)
  · rintro rfl
    exact ⟨rfl, rfl, rfl, rfl⟩

/-- One file with one added line, which mentions a diff. -/
theorem content_split : (parseDiffOutput (gitDiff id
    [⟨"a.md", "a.md", [.added "diff --git a b"]⟩])).map FileDiff.path = ["a.md", "b"] := by
  decide +kernel

/-! ## The chain of checkpoints -/

/-- How the git commands after a tool execution end; `diff` is what `git diff` prints for a range. -/
structure GitReplies where
  add : Bool := true
  status : String
  commit : Bool := true
  revParse : Option String
  diff : String → Option String

/-- The commit that is made, unless there is nothing to commit or a command fails. -/
def GitReplies.head (g : GitReplies) : Option String :=
  if g.add ∧ Go.trimSpace g.status ≠ "" ∧ g.commit then g.revParse.map Go.trimSpace else none

def GitReplies.files (g : GitReplies) (range : String) : List FileDiff :=
  match g.diff range with
  | some text => if Go.trimSpace text = "" then [] else parseDiffOutput text
  | none => []

/-- The new `lastCheckpointSHA`, and what is returned. -/
def createGitCheckpoint (lastCheckpointSHA : String) (g : GitReplies) :
    String × String × List FileDiff :=
  match g.head with
  | some sha =>
    (sha, sha, g.files
      (if lastCheckpointSHA ≠ "" then lastCheckpointSHA ++ ".." ++ sha else "HEAD~1..HEAD"))
  | none => (lastCheckpointSHA, "", [])

structure ToolSpan where
  checkpointSHA : Option String
  prevCheckpointSHA : Option String
  diff : List FileDiff

def toolExecutionEnd (lastCheckpointSHA : String) (g : GitReplies) : String × ToolSpan :=
  let (last, sha, diff) := createGitCheckpoint lastCheckpointSHA g
  (last, { checkpointSHA := if sha ≠ "" then some sha else none
           prevCheckpointSHA := if sha ≠ "" ∧ last ≠ sha then some last else none
           diff })

/-- The spans of the tool executions, with what git has answered for them. -/
def toolSpans : String → List GitReplies → List (GitReplies × ToolSpan)
  | _, [] => []
  | last, g :: gs => (g, (toolExecutionEnd last g).2) :: toolSpans (toolExecutionEnd last g).1 gs

/-- The spans of a stage that carry a checkpoint; `StartAgent` has cleared `lastCheckpointSHA`. -/
def checkpoints (gs : List GitReplies) : List (GitReplies × ToolSpan) :=
  (toolSpans "" gs).filter fun s => s.2.checkpointSHA.isSome

def LinksTo (s t : GitReplies × ToolSpan) : Prop :=
  t.2.prevCheckpointSHA = s.2.checkpointSHA ∧
    ∀ sha ∈ s.2.checkpointSHA, ∀ sha' ∈ t.2.checkpointSHA, t.2.diff = t.1.files (sha ++ ".." ++ sha')

theorem toolExecutionEnd_span (last : String) (g : GitReplies) :
    (toolExecutionEnd last g).2.checkpointSHA = g.head.filter (· ≠ "") ∧
      (toolExecutionEnd last g).2.prevCheckpointSHA = none := by
  unfold toolExecutionEnd createGitCheckpoint
  cases g.head <;> simp [Option.filter]

theorem countP_toolSpans (last : String) (gs : List GitReplies) :
    (toolSpans last gs).countP (fun s => s.2.checkpointSHA.isSome) =
      gs.countP fun g => (g.head.filter (· ≠ "")).isSome := by
  induction gs generalizing last with
  | nil => rfl
  | cons g gs ih =>
    rw [toolSpans, countP_cons, countP_cons, ih, (toolExecutionEnd_span last g).1]

theorem toolSpans_prev {last gs s} (hs : s ∈ toolSpans last gs) : s.2.prevCheckpointSHA = none := by
  induction gs generalizing last with
  | nil => cases hs
  | cons g gs ih =>
    obtain rfl | hs := mem_cons.1 hs
    · exact (toolExecutionEnd_span last g).2
    · exact ih hs

/-- When a span is written, `lastCheckpointSHA` already is the checkpoint of this span. -/
theorem checkpoints_chained_iff (gs : List GitReplies) :
    (∀ s ∈ checkpoints gs, s.2.prevCheckpointSHA = none) ∧
      ((checkpoints gs).IsChain LinksTo ↔
        gs.countP (fun g => (g.head.filter (· ≠ "")).isSome) ≤ 1) := by
  have hprev : ∀ s ∈ checkpoints gs, s.2.prevCheckpointSHA = none := fun s hs =>
    toolSpans_prev (mem_of_mem_filter hs)
  have hsome : ∀ s ∈ checkpoints gs, s.2.checkpointSHA.isSome := fun s hs =>
    (mem_filter.1 hs).2
  refine ⟨hprev, ?_⟩
  rw [← countP_toolSpans "", countP_eq_length_filter, ← checkpoints]
  match checkpoints gs, hprev, hsome with
  | [], _, _ => simp
  | [s], _, _ => simp
  | s :: t :: rest, hprev, hsome =>
    refine iff_of_false (fun hchain => ?_) (by simp)
    have hnone := (isChain_cons_cons.1 hchain).1.1.symm.trans (hprev t (by simp))
    simpa [hnone] using hsome s (by simp)

/-- Two tool executions that both change a file. -/
theorem second_checkpoint_unlinked :
    ¬ (checkpoints [⟨true, "M a.md", true, some "a1", fun _ => none⟩,
      ⟨true, "M a.md", true, some "b2", fun _ => none⟩]).IsChain LinksTo := by
  intro hchain
  exact absurd (isChain_cons_cons.1 hchain).1.1 (by decide +kernel)

end Uncworks
