import Uncworks.Gate.Tier
import Uncworks.Specs.Rubric

/-!
# The verdicts on a diff

The tier verdict demands a merged spec for T2 and T3: the named change has to be in the base ref, its
Impact section has to claim the diff, and at T3 the decision of its owner has to be recorded.  The
conformance verdict compares the diff with all paths that the Impact section declares
(`internal/gate/verdicts.go`).
-/

namespace Uncworks.Gate

open Specutil (Lib Change Disk Section)

structure Verdict where
  name : String
  required : Bool
  pass : Bool := false
  summary : String := ""
  detail : List String := []
  deriving DecidableEq, Repr

structure Options where
  changeID : String
  base : String
  head : String
  root : String

def changeDir (root id : String) : String := Go.joinPath [root, "openspec", "changes", id]

def changePath (id : String) : String := "openspec/changes/" ++ id

/-! ## Declared paths -/

def isSeparator (c : Char) : Bool := c = ',' || c = ' ' || c = '\t' || c = '`'

def isPunctuation (c : Char) : Bool := c ∈ ['.', ':', ';', '(', ')']

def sourceExtensions : List String :=
  [".go", ".ts", ".tsx", ".yml", ".yaml", ".json", ".proto", ".md"]

def looksLikePath (token : String) : Bool :=
  if token = "" || token.toList.any (fun c => c = ' ' || c = '\t') then false
  else if !token.toList.contains '/' && !token.toList.contains '.' then false
  else if token.toList.contains '/' then true
  else sourceExtensions.any (Go.hasSuffix token)

def bulletFields (bullet : String) : List String :=
  ((bullet.toList.splitOnP isSeparator).filter (· ≠ [])).map fun field =>
    String.ofList (Go.trimFunc isPunctuation field)

section

variable (lib : Lib) (change : Change)

def declaredPaths : List String :=
  match change.artifacts "proposal" with
  | none => []
  | some proposal =>
    match proposal.section lib "## Impact" with
    | none => []
    | some impact =>
      dedupe (sortStrings ((impact.bullets.flatMap bulletFields).filter looksLikePath))

def covers (declared p : String) : Bool :=
  let d := Go.trimSuffix declared "/"
  p = d || Go.hasPrefix p (d ++ "/")

def coveredBy (declared : List String) (p : String) : Bool := declared.any (covers · p)

def touches (changed : List String) (declared : String) : Bool := changed.any (covers declared)

/-! ## Paths that are left out -/

def isGenerated (p : String) : Bool :=
  ["gen/", "cmd/uncworks-app/frontend/wailsjs/"].any (Go.hasPrefix p) ||
    Go.hasSuffix p "zz_generated.deepcopy.go" || Go.hasSuffix p "package-lock.json"

def isChangeArtifact (p : String) : Bool := Go.hasPrefix p "openspec/"

def claimable (changed : List String) : List String :=
  changed.filter fun p => !(isGenerated p || isChangeArtifact p || isDoc p || isTest p)

/-- The changed code paths that the Impact section does not cover, unless it covers one. -/
def unclaimedPaths (changed : List String) : List String :=
  let code := claimable changed
  let unclaimed := code.filter fun p => !coveredBy (declaredPaths lib change) p
  if code.length = 0 ∨ unclaimed.length < code.length then [] else unclaimed

def truncateList (items : List String) (n : ℕ) : List String :=
  if items.length ≤ n then items else items.take n ++ [s!"and {items.length - n} more"]

/-! ## The verdicts -/

/-- The owner decision that T3 asks for: what is missing, if something is. -/
def ownerDecision? : Option String :=
  match change.artifacts "review" with
  | none => some "tier T3 needs a review.md, and the change has none"
  | some review =>
    match review.section lib "## Owner decision" with
    | none => some "review.md records no owner decision"
    | some decision =>
      if Specutil.isPending lib decision then
        some "the owner decision is still pending, so a tier T3 change cannot merge"
      else none

end

/-- What the tier demands, for a ref in which `atBase` says which paths exist. -/
def tierVerdict (lib : Lib) (disk : Disk) (atBase : String → Except String Bool) (opts : Options)
    (tier : Tier) (reason : String) (changed : List String) : Verdict :=
  let verdict : Verdict :=
    { name := "factory/tier", required := true, summary := tier.text ++ ": " ++ reason }
  match tier with
  | .experiment | .t1 => { verdict with pass := true }
  | .amendment =>
    { verdict with detail :=
        ["this diff amends openspec/specs/, so it is an escalation rather than an " ++
          "implementation. Merge the amendment on its own, then reopen the code " ++
          "against the amended spec"] }
  | .t2 | .t3 =>
    if opts.changeID = "" then
      { verdict with detail :=
          ["tier " ++ tier.text ++ " needs a merged spec, and the pull request names no change. " ++
            "Name it with --change, or in a branch of the form change/<id>"] }
    else
      let proposal := changePath opts.changeID ++ "/proposal.md"
      match atBase proposal with
      | .error err => { verdict with detail := ["could not read the base ref: " ++ err] }
      | .ok false =>
        { verdict with detail :=
            ["tier " ++ tier.text ++ " needs a merged spec, and " ++ proposal ++ " is absent from " ++
              opts.base] }
      | .ok true =>
        match Specutil.load disk (changeDir opts.root opts.changeID) with
        | .error err => { verdict with detail := ["could not read the change: " ++ err] }
        | .ok change =>
          if unclaimedPaths lib change changed ≠ [] then
            { verdict with detail :=
                ["the change " ++ lib.quote opts.changeID ++
                  " does not claim this work: its Impact covers none of " ++
                  ", ".intercalate (truncateList (unclaimedPaths lib change changed) 5)] }
          else if tier = .t3 then
            match ownerDecision? lib change with
            | some missing => { verdict with detail := [missing] }
            | none => { verdict with pass := true }
          else { verdict with pass := true }

def undeclaredPaths (declared changed : List String) : List String :=
  changed.filter fun p => !(isGenerated p || isChangeArtifact p) && !coveredBy declared p

def conformanceVerdict (lib : Lib) (disk : Disk) (opts : Options) (changed : List String) :
    Verdict :=
  let verdict : Verdict := { name := "factory/spec-conformance", required := false }
  if opts.changeID = "" then
    { verdict with
      pass := true
      summary := "no change named, so there is nothing to compare against" }
  else
    match Specutil.load disk (changeDir opts.root opts.changeID) with
    | .error err => { verdict with summary := "could not read the change: " ++ err }
    | .ok change =>
      let declared := declaredPaths lib change
      if declared = [] then
        { verdict with summary := "the proposal's Impact section declares no path" }
      else
        let undeclared := undeclaredPaths declared changed
        let untouched := declared.filter fun d => !touches changed d
        { verdict with
          detail := undeclared.map ("undeclared: " ++ ·) ++
            untouched.map ("declared but untouched: " ++ ·)
          pass := undeclared = []
          summary := s!"{undeclared.length} undeclared paths, {untouched.length} declared paths untouched" }

/-! ## When the tier verdict passes -/

section Pass

variable {lib : Lib} {disk : Disk} {atBase : String → Except String Bool} {opts : Options}
  {tier : Tier} {reason : String} {changed : List String} {change : Change}

/-- The pull request names a change that is in the base ref and can be read. -/
structure Named (disk : Disk) (atBase : String → Except String Bool) (opts : Options)
    (change : Change) : Prop where
  id : opts.changeID ≠ ""
  merged : atBase (changePath opts.changeID ++ "/proposal.md") = .ok true
  loaded : Specutil.load disk (changeDir opts.root opts.changeID) = .ok change

def Tier.NeedsSpec (tier : Tier) : Prop := tier = .t2 ∨ tier = .t3

theorem named_of_pass (htier : tier.NeedsSpec)
    (hpass : (tierVerdict lib disk atBase opts tier reason changed).pass = true) :
    ∃ change, Named disk atBase opts change := by
  have hid : opts.changeID ≠ "" := by
    intro hid
    rcases htier with rfl | rfl <;> simp [tierVerdict, hid] at hpass
  cases hmerged : atBase (changePath opts.changeID ++ "/proposal.md") with
  | error err => rcases htier with rfl | rfl <;> simp [tierVerdict, hid, hmerged] at hpass
  | ok present =>
    cases present with
    | false => rcases htier with rfl | rfl <;> simp [tierVerdict, hid, hmerged] at hpass
    | true =>
      cases hloaded : Specutil.load disk (changeDir opts.root opts.changeID) with
      | error err =>
        rcases htier with rfl | rfl <;> simp [tierVerdict, hid, hmerged, hloaded] at hpass
      | ok change => exact ⟨change, hid, hmerged, hloaded⟩

theorem tierVerdict_pass_iff_of_named (htier : tier.NeedsSpec)
    (hnamed : Named disk atBase opts change) :
    (tierVerdict lib disk atBase opts tier reason changed).pass = true ↔
      unclaimedPaths lib change changed = [] ∧ (tier = .t3 → ownerDecision? lib change = none) := by
  have hmerged := hnamed.merged
  rcases htier with rfl | rfl
  · by_cases hclaim : unclaimedPaths lib change changed = [] <;>
      simp [tierVerdict, hnamed.id, hmerged, hnamed.loaded, hclaim]
  · by_cases hclaim : unclaimedPaths lib change changed = []
    · cases howner : ownerDecision? lib change <;>
        simp [tierVerdict, hnamed.id, hmerged, hnamed.loaded, hclaim, howner]
    · simp [tierVerdict, hnamed.id, hmerged, hnamed.loaded, hclaim]

theorem mem_claimable {p} : p ∈ claimable changed ↔
    p ∈ changed ∧ (isGenerated p || isChangeArtifact p || isDoc p || isTest p) = false := by
  simp [claimable]

theorem hasPrefix_changePrefix_of_claimable {p}
    (h : (isGenerated p || isChangeArtifact p || isDoc p || isTest p) = false) :
    Go.hasPrefix p changePrefix = false := by
  simp only [Bool.or_eq_false_iff] at h
  rw [Bool.eq_false_iff]
  intro hchange
  obtain ⟨rest, rfl⟩ := Go.hasPrefix_iff.1 hchange
  exact Bool.eq_false_iff.1 h.1.1.2
    (Go.hasPrefix_iff.2 ⟨"changes/" ++ rest, by rw [← String.append_assoc]; rfl⟩)

theorem claimable_subset_codePaths : claimable changed ⊆ codePaths changed := by
  intro p hp
  obtain ⟨hmem, hnot⟩ := mem_claimable.1 hp
  have hchange := hasPrefix_changePrefix_of_claimable hnot
  exact mem_codePaths.2 ⟨hmem, by simp_all [skipped]⟩

theorem unclaimedPaths_eq_nil_iff : unclaimedPaths lib change changed = [] ↔
    claimable changed = [] ∨ ∃ p ∈ claimable changed, coveredBy (declaredPaths lib change) p := by
  unfold unclaimedPaths
  simp only [List.length_eq_zero_iff, List.length_filter_lt_length_iff_exists]
  by_cases hnil : claimable changed = []
  · simp [hnil]
  · simp only [hnil, false_or]
    split
    · next h => simpa using h
    · next h =>
      simp only [Bool.not_eq_true', not_exists, not_and] at h
      have hall : (claimable changed).filter (fun p => !coveredBy (declaredPaths lib change) p) =
          claimable changed := by
        rw [List.filter_eq_self]
        intro p hp
        simpa using h p hp
      rw [hall]
      simp only [hnil, false_iff, not_exists, not_and]
      intro p hp
      simpa using h p hp

end Pass

end Uncworks.Gate
