import Uncworks.Gate.Declared

/-!
# What the tier verdict rests on

Two classifiers decide what counts as code: `codePaths` for the tier and `claimable` for the claim.
Where the second leaves out all that the first counts, nothing has to be claimed
(`tierVerdict_claims_iff`).
-/

namespace Uncworks.Gate

open List

open Specutil (Lib Change Disk Section parseSections)

/-! ## A change with a proposal and a review -/

def changeDisk (dir proposal review : String) : Disk where
  stat p := if p = dir then .ok true else .error "no such file or directory"
  readFile p :=
    if p = Go.joinPath [dir, "proposal.md"] then some proposal
    else if p = Go.joinPath [dir, "review.md"] then some review
    else none

theorem elements_joinPath_file {dir file} (hdir : dir ≠ "") (hproper : Go.Proper file)
    (hslash : '/' ∉ file.toList) :
    Go.elements (Go.joinPath [dir, file]) = Go.elements dir ++ [file] := by
  have hnames : ∀ n ∈ [file], Go.Proper n ∧ '/' ∉ n.toList :=
    forall_mem_singleton.2 ⟨hproper, hslash⟩
  simpa using Go.elements_joinPath_names hdir hnames

theorem readFile_changeDisk {dir} (hdir : dir ≠ "") (proposal review : String) :
    (changeDisk dir proposal review).readFile (Go.joinPath [dir, "proposal.md"]) = some proposal ∧
      (changeDisk dir proposal review).readFile (Go.joinPath [dir, "review.md"]) = some review := by
  have hne : Go.joinPath [dir, "review.md"] ≠ Go.joinPath [dir, "proposal.md"] := by
    intro h
    have helements := congrArg Go.elements h
    rw [elements_joinPath_file hdir ⟨by decide, by decide, by decide⟩ (by decide),
      elements_joinPath_file hdir ⟨by decide, by decide, by decide⟩ (by decide)] at helements
    exact absurd (append_cancel_left helements) (by decide)
  simp [changeDisk, hne]

theorem stat_changeDisk (dir proposal review : String) :
    (changeDisk dir proposal review).stat dir = .ok true :=
  if_pos rfl

theorem load_of_readFile {disk dir proposal review} (hstat : disk.stat dir = .ok true)
    (hfiles : disk.readFile (Go.joinPath [dir, "proposal.md"]) = some proposal ∧
      disk.readFile (Go.joinPath [dir, "review.md"]) = some review) :
    ∃ change, Specutil.load disk dir = .ok change ∧
      change.artifacts "proposal" = some
        ⟨"proposal", Go.joinPath [dir, "proposal.md"], proposal, parseSections proposal⟩ ∧
      change.artifacts "review" = some
        ⟨"review", Go.joinPath [dir, "review.md"], review, parseSections review⟩ := by
  have hload : Specutil.load disk dir = .ok ⟨Go.base dir, dir, Specutil.loadArtifact disk dir⟩ := by
    simp [Specutil.load, hstat]
  have hnames : ("proposal" ∈ Specutil.artifactNames ∧ "proposal" ≠ "citations") ∧
      "review" ∈ Specutil.artifactNames ∧ "review" ≠ "citations" := by decide
  refine ⟨_, hload, ?_, ?_⟩
  · show Specutil.loadArtifact disk dir "proposal" = _
    rw [Specutil.loadArtifact, if_pos hnames.1]
    simp [hfiles.1]
  · show Specutil.loadArtifact disk dir "review" = _
    rw [Specutil.loadArtifact, if_pos hnames.2]
    simp [hfiles.2]

theorem changeDir_ne_empty (root id : String) : changeDir root id ≠ "" := Go.clean_ne_empty _

def decidedReview : String := "## Owner decision\nmerge"

theorem toLower_merge (lib : Lib) : lib.toLower "merge" = "merge" := by
  have hrune : ∀ c ∈ "merge".toList, lib.toLowerRune c = c := by
    have hlist : "merge".toList = ['m', 'e', 'r', 'g', 'e'] := by decide
    simp [lib.toLowerRune_ascii]
  rw [Go.Lib.toLower, map_congr_left hrune, map_id'', String.ofList_toList]
  exact fun _ => rfl

theorem ownerDecision?_decided (lib : Lib) {change path text}
    (h : change.artifacts "review" = some ⟨"review", path, text, parseSections decidedReview⟩) :
    ownerDecision? lib change = none := by
  have hsections : parseSections decidedReview = [⟨"## Owner decision", 2, 1, ["merge"]⟩] := by
    decide +kernel
  have hpending : Specutil.isPending lib ⟨"## Owner decision", 2, 1, ["merge"]⟩ = false := by
    have hbody : " ".intercalate ["merge"] = "merge" := by decide
    simp only [Specutil.isPending, hbody, toLower_merge]
    decide +kernel
  simp [ownerDecision?, h, Specutil.Artifact.section, hsections, Lib.equalFold_refl, hpending]

/-! ## Diffs that nothing has to claim -/

def tierVerdictOf (lib : Lib) (disk : Disk) (atBase : String → Except String Bool) (opts : Options)
    (changed : List String) : Verdict :=
  tierVerdict lib disk atBase opts (classifyTier changed).1 (classifyTier changed).2 changed

/-- For every change the verdict passes only if the Impact section covers a path that counts as
code, exactly if one of the paths is neither generated, nor under `openspec/`, nor documentation or
a test, or the tier needs no spec. -/
theorem tierVerdict_claims_iff (lib : Lib) (changed : List String) :
    (∀ (disk : Disk) (atBase : String → Except String Bool) (opts : Options) (change : Change),
        Named disk atBase opts change → (classifyTier changed).1.NeedsSpec →
        (tierVerdictOf lib disk atBase opts changed).pass = true →
        ∃ p ∈ codePaths changed, coveredBy (declaredPaths lib change) p = true) ↔
      ((classifyTier changed).1.NeedsSpec → claimable changed ≠ []) := by
  constructor
  · intro hclaims htier hnil
    -- a merged change with an empty proposal and a decided review
    let opts : Options := ⟨"c", "main", "HEAD", "."⟩
    obtain ⟨change, hload, hproposal, hreview⟩ := load_of_readFile (stat_changeDisk _ _ _)
      (readFile_changeDisk (changeDir_ne_empty opts.root opts.changeID) "" decidedReview)
    have hnamed : Named _ (fun _ => .ok true) opts change := ⟨by decide, rfl, hload⟩
    have hpass : (tierVerdictOf lib _ (fun _ => .ok true) opts changed).pass = true :=
      (tierVerdict_pass_iff_of_named htier hnamed).2
        ⟨unclaimedPaths_eq_nil_iff.2 (Or.inl hnil), fun _ => ownerDecision?_decided lib hreview⟩
    obtain ⟨p, -, hcovered⟩ := hclaims _ _ opts change hnamed htier hpass
    have hempty : parseSections "" = [] := by decide +kernel
    simp [declaredPaths, hproposal, Specutil.Artifact.section, hempty, coveredBy] at hcovered
  · intro hsome disk atBase opts change hnamed htier hpass
    obtain ⟨hclaimed, -⟩ := (tierVerdict_pass_iff_of_named htier hnamed).1 hpass
    obtain hnil | ⟨p, hp, hcovered⟩ := unclaimedPaths_eq_nil_iff.1 hclaimed
    · exact absurd hnil (hsome htier)
    · exact ⟨p, claimable_subset_codePaths hp, hcovered⟩

def hooksDisk : Disk :=
  changeDisk "openspec/changes/keybindings"
    "# Keybindings\n\n## Impact\n\n- Code: `web/src/hooks/`\n" ""

/-- A diff of one lock file passes at T2 by naming that change. -/
theorem lockfile_borrows :
    ∃ change, Named hooksDisk (fun _ => .ok true) ⟨"keybindings", "main", "HEAD", "."⟩ change ∧
      (classifyTier ["package-lock.json"]).1 = .t2 ∧
      (tierVerdictOf Specutil.asciiLib hooksDisk (fun _ => .ok true)
        ⟨"keybindings", "main", "HEAD", "."⟩ ["package-lock.json"]).pass = true ∧
      ∀ p ∈ codePaths ["package-lock.json"],
        coveredBy (declaredPaths Specutil.asciiLib change) p = false := by
  obtain ⟨change, hload, hproposal, -⟩ := load_of_readFile (stat_changeDisk _ _ _)
    (readFile_changeDisk (show "openspec/changes/keybindings" ≠ "" by decide) _ _)
  have hdir : changeDir "." "keybindings" = "openspec/changes/keybindings" := by decide +kernel
  refine ⟨change, ⟨by decide, rfl, hdir ▸ hload⟩, by decide +kernel, by decide +kernel, ?_⟩
  have hdeclared : declaredPaths Specutil.asciiLib change = ["web/src/hooks/"] := by
    rw [declaredPaths, hproposal]
    decide +kernel
  have hcode : codePaths ["package-lock.json"] = ["package-lock.json"] := by decide +kernel
  rw [hdeclared]
  exact forall_mem_singleton.2 (by decide +kernel)

/-! ## Edits of the change in the same pull request -/

/-- The head of a pull request: the paths it changes, and the working tree. -/
structure PullRequest where
  changed : List String
  disk : Disk

/-- Two pull requests that differ in the files of the named change only. -/
structure SameBut (opts : Options) (pr pr' : PullRequest) : Prop where
  changed : ∀ p, Go.hasPrefix p (changePath opts.changeID ++ "/") = false →
    (p ∈ pr'.changed ↔ p ∈ pr.changed)
  stat : ∀ path, ¬ Go.Below (changeDir opts.root opts.changeID) path →
    pr'.disk.stat path = pr.disk.stat path
  readFile : ∀ path, ¬ Go.Below (changeDir opts.root opts.changeID) path →
    pr'.disk.readFile path = pr.disk.readFile path

def PullRequest.tier (pr : PullRequest) : Tier := (classifyTier (sortStrings pr.changed)).1

def PullRequest.passes (lib : Lib) (atBase : String → Except String Bool) (opts : Options)
    (pr : PullRequest) : Bool :=
  (tierVerdictOf lib pr.disk atBase opts (sortStrings pr.changed)).pass

def declaredBy (lib : Lib) (text : String) : List String :=
  declaredPaths lib ⟨"", "", fun _ => some ⟨"proposal", "", text, parseSections text⟩⟩

/-- The Impact section of some proposal covers the path. -/
def Nameable (lib : Lib) (p : String) : Prop := ∃ text, coveredBy (declaredBy lib text) p = true

section Edits

variable {lib : Lib} {atBase : String → Except String Bool} {opts : Options} {pr pr' : PullRequest}
  {p : String}

theorem declaredPaths_eq_declaredBy {change proposal}
    (hproposal : change.artifacts "proposal" = some proposal)
    (hsections : proposal.sections = parseSections proposal.text) :
    declaredPaths lib change = declaredBy lib proposal.text := by
  simp [declaredBy, declaredPaths, hproposal, Specutil.Artifact.section, hsections]

theorem SameBut.mem_iff (h : SameBut opts pr pr') (hp : Go.hasPrefix p changePrefix = false) :
    p ∈ sortStrings pr'.changed ↔ p ∈ sortStrings pr.changed := by
  rw [mem_sortStrings, mem_sortStrings]
  refine h.changed p ?_
  rw [Bool.eq_false_iff] at hp ⊢
  intro hprefix
  obtain ⟨rest, rfl⟩ := Go.hasPrefix_iff.1 hprefix
  refine hp (Go.hasPrefix_iff.2 ⟨opts.changeID ++ ("/" ++ rest), ?_⟩)
  show "openspec/changes/" ++ opts.changeID ++ "/" ++ rest = "openspec/changes/" ++ _
  rw [String.append_assoc, String.append_assoc]

theorem SameBut.amends_iff (h : SameBut opts pr pr') :
    Amends (sortStrings pr'.changed) ↔ Amends (sortStrings pr.changed) := by
  refine exists_congr fun p => and_congr_left fun hspec => h.mem_iff ?_
  rw [Bool.eq_false_iff]
  intro hchange
  obtain ⟨rest, rfl⟩ := Go.hasPrefix_iff.1 hspec
  obtain ⟨rest', heq⟩ := Go.hasPrefix_iff.1 hchange
  have htake := congrArg (fun s : String => s.toList.take 10) heq
  exact absurd htake (by simp [specPrefix, changePrefix])

theorem SameBut.tier_eq (h : SameBut opts pr pr') : pr'.tier = pr.tier :=
  classifyTier_congr h.amends_iff fun p => by
    rw [mem_codePaths, mem_codePaths]
    exact and_congr_left fun hskipped => h.mem_iff (by simp_all [skipped])

theorem SameBut.needsSpec (h : SameBut opts pr pr') (hneeds : pr.tier.NeedsSpec) :
    pr'.tier.NeedsSpec := by
  rw [h.tier_eq]
  exact hneeds

theorem SameBut.mem_claimable_iff (h : SameBut opts pr pr') :
    p ∈ claimable (sortStrings pr'.changed) ↔ p ∈ claimable (sortStrings pr.changed) := by
  rw [mem_claimable, mem_claimable]
  exact and_congr_left fun hnot => h.mem_iff (hasPrefix_changePrefix_of_claimable hnot)

/-- The pull request also replaces the directory of the named change. -/
def PullRequest.edited (opts : Options) (pr : PullRequest) (new : Disk) : PullRequest where
  changed := ["proposal.md", "review.md"].map (changePath opts.changeID ++ "/" ++ ·) ++ pr.changed
  disk :=
    { stat := fun p => if Go.Below (changeDir opts.root opts.changeID) p then new.stat p
        else pr.disk.stat p
      readFile := fun p => if Go.Below (changeDir opts.root opts.changeID) p then new.readFile p
        else pr.disk.readFile p }

theorem sameBut_edited (opts : Options) (pr : PullRequest) (new : Disk) :
    SameBut opts pr (pr.edited opts new) where
  changed p hp := by
    have hne : ∀ file : String, p ≠ changePath opts.changeID ++ "/" ++ file := by
      rintro file rfl
      simp [Go.hasPrefix_append] at hp
    simp [PullRequest.edited, hne]
  stat path hpath := if_neg hpath
  readFile path hpath := if_neg hpath

theorem below_self (dir : String) : Go.Below dir dir := by simp [Go.Below]

theorem below_joinPath_file {dir file} (hdir : dir ≠ "") (hproper : Go.Proper file)
    (hslash : '/' ∉ file.toList) : Go.Below dir (Go.joinPath [dir, file]) := by
  have helements := elements_joinPath_file hdir hproper hslash
  refine ⟨Go.isAbs_joinPath dir [file] fun h => absurd h hdir, ?_, ?_⟩
  · rw [helements]
    exact prefix_append _ _
  · rw [helements]
    simpa using Ne.symm hproper.2.2

theorem passes_deleted (hneeds : pr.tier.NeedsSpec) :
    (pr.edited opts ⟨fun _ => .error "no such file or directory", fun _ => none⟩).passes lib atBase
      opts = false := by
  rw [Bool.eq_false_iff]
  intro hpass
  obtain ⟨change, hnamed⟩ := named_of_pass ((sameBut_edited opts pr _).needsSpec hneeds) hpass
  have hload := hnamed.loaded
  simp [Specutil.load, PullRequest.edited, below_self] at hload

theorem passes_rewritten (hneeds : pr.tier.NeedsSpec) (hid : opts.changeID ≠ "")
    (hmerged : atBase (changePath opts.changeID ++ "/proposal.md") = .ok true) {new dir text} (hdir : dir = changeDir opts.root opts.changeID) (hstat : new.stat dir = .ok true)
    (hfiles : new.readFile (Go.joinPath [dir, "proposal.md"]) = some text ∧
      new.readFile (Go.joinPath [dir, "review.md"]) = some decidedReview)
    (hclaim : claimable (sortStrings pr.changed) = [] ∨
      ∃ p ∈ claimable (sortStrings pr.changed), coveredBy (declaredBy lib text) p = true) :
    (pr.edited opts new).passes lib atBase opts = true := by
  subst hdir
  have hne := changeDir_ne_empty opts.root opts.changeID
  have hsame := sameBut_edited opts pr new
  have hread : ∀ {path}, Go.Below (changeDir opts.root opts.changeID) path →
      (pr.edited opts new).disk.readFile path = new.readFile path := fun h => if_pos h
  rw [← hread (below_joinPath_file hne ⟨by decide, by decide, by decide⟩ (by decide)),
    ← hread (below_joinPath_file hne ⟨by decide, by decide, by decide⟩ (by decide))] at hfiles
  obtain ⟨change, hload, hproposal, hreview⟩ :=
    load_of_readFile ((if_pos (below_self _)).trans hstat) hfiles
  refine (tierVerdict_pass_iff_of_named (hsame.needsSpec hneeds) ⟨hid, hmerged, hload⟩).2
    ⟨unclaimedPaths_eq_nil_iff.2 ?_, fun _ => ownerDecision?_decided lib hreview⟩
  rw [declaredPaths_eq_declaredBy hproposal rfl]
  rcases hclaim with hnil | ⟨p, hp, hcovered⟩
  · refine Or.inl (eq_nil_iff_forall_not_mem.2 fun p hp => ?_)
    exact not_mem_nil (hnil ▸ hsame.mem_claimable_iff.1 hp)
  · exact Or.inr ⟨p, hsame.mem_claimable_iff.2 hp, hcovered⟩

theorem passes_eq_false (hneeds : pr.tier.NeedsSpec)
    (hsome : claimable (sortStrings pr.changed) ≠ [])
    (hnone : ∀ p ∈ claimable (sortStrings pr.changed), ¬ Nameable lib p) :
    pr.passes lib atBase opts = false := by
  rw [Bool.eq_false_iff]
  intro hpass
  obtain ⟨change, hnamed⟩ := named_of_pass hneeds hpass
  obtain ⟨hclaimed, -⟩ := (tierVerdict_pass_iff_of_named hneeds hnamed).1 hpass
  obtain hnil | ⟨p, hp, hcovered⟩ := unclaimedPaths_eq_nil_iff.1 hclaimed
  · exact hsome hnil
  · cases hproposal : change.artifacts "proposal" with
    | none => simp [declaredPaths, hproposal, coveredBy] at hcovered
    | some proposal =>
      rw [declaredPaths_eq_declaredBy hproposal
        (Specutil.sections_of_load hnamed.loaded hproposal)] at hcovered
      exact hnone p hp ⟨_, hcovered⟩

/-- The verdict of the other tiers, or of a change that is not named or not merged, does not depend on
the files of the change. -/
theorem passes_congr (h : SameBut opts pr pr')
    (hearly : ¬ (pr.tier.NeedsSpec ∧ opts.changeID ≠ "" ∧
      atBase (changePath opts.changeID ++ "/proposal.md") = .ok true)) :
    pr'.passes lib atBase opts = pr.passes lib atBase opts := by
  by_cases hneeds : pr.tier.NeedsSpec
  · have hfalse : ∀ {pr : PullRequest}, pr.tier.NeedsSpec → pr.passes lib atBase opts = false := by
      intro pr hneeds'
      rw [Bool.eq_false_iff]
      intro hpass
      obtain ⟨change, hnamed⟩ := named_of_pass hneeds' hpass
      exact hearly ⟨hneeds, hnamed.id, hnamed.merged⟩
    rw [hfalse hneeds, hfalse (h.needsSpec hneeds)]
  · have htier : (classifyTier (sortStrings pr'.changed)).1 =
        (classifyTier (sortStrings pr.changed)).1 := h.tier_eq
    unfold PullRequest.passes tierVerdictOf
    rw [htier]
    cases hcase : (classifyTier (sortStrings pr.changed)).1 with
    | amendment | experiment | t1 => rfl
    | t2 => exact absurd (Or.inl hcase) hneeds
    | t3 => exact absurd (Or.inr hcase) hneeds

end Edits

/-- No edit of the files of the named change alters the verdict, exactly if the verdict does not get
to read them or no Impact section covers a path that has to be claimed. -/
theorem tierVerdict_noninterference_iff (lib : Lib) (atBase : String → Except String Bool)
    (opts : Options) (pr : PullRequest) :
    (∀ pr', SameBut opts pr pr' → pr'.passes lib atBase opts = pr.passes lib atBase opts) ↔
      (pr.tier.NeedsSpec ∧ opts.changeID ≠ "" ∧
          atBase (changePath opts.changeID ++ "/proposal.md") = .ok true →
        claimable (sortStrings pr.changed) ≠ [] ∧
          ∀ p ∈ claimable (sortStrings pr.changed), ¬ Nameable lib p) := by
  constructor
  · rintro hsame ⟨hneeds, hid, hmerged⟩
    have hdeleted := hsame _
      (sameBut_edited opts pr ⟨fun _ => .error "no such file or directory", fun _ => none⟩)
    rw [passes_deleted hneeds] at hdeleted
    have hfails : ∀ text : String, ¬ (claimable (sortStrings pr.changed) = [] ∨
        ∃ p ∈ claimable (sortStrings pr.changed), coveredBy (declaredBy lib text) p = true) := by
      intro text hclaim
      have hrewritten := hsame _ (sameBut_edited opts pr
        (changeDisk (changeDir opts.root opts.changeID) text decidedReview))
      rw [passes_rewritten hneeds hid hmerged rfl (stat_changeDisk _ _ _)
        (readFile_changeDisk (changeDir_ne_empty _ _) _ _) hclaim, ← hdeleted] at hrewritten
      exact absurd hrewritten (by decide)
    exact ⟨fun hnil => hfails "" (Or.inl hnil),
      fun p hp ⟨text, hcovered⟩ => hfails text (Or.inr ⟨p, hp, hcovered⟩)⟩
  · intro hcond pr' hsame
    by_cases hread : pr.tier.NeedsSpec ∧ opts.changeID ≠ "" ∧
        atBase (changePath opts.changeID ++ "/proposal.md") = .ok true
    · obtain ⟨hsome, hnone⟩ := hcond hread
      rw [passes_eq_false hread.1 hsome hnone]
      refine passes_eq_false (hsame.needsSpec hread.1) ?_ ?_
      · obtain ⟨p, hp⟩ := exists_mem_of_ne_nil _ hsome
        exact ne_nil_of_mem (hsame.mem_claimable_iff.2 hp)
      · exact fun p hp => hnone p (hsame.mem_claimable_iff.1 hp)
    · exact passes_congr hsame hread

def rewrittenDisk : Disk :=
  changeDisk "openspec/changes/keybindings" "## Impact\n- `internal/server/`" decidedReview

/-- A pull request that alters the REST surface and names the change about hooks passes once it also
rewrites the proposal and the review of that change. -/
theorem rewritten_impact_passes :
    SameBut ⟨"keybindings", "main", "HEAD", "."⟩ ⟨["internal/server/files.go"], hooksDisk⟩
        (PullRequest.edited ⟨"keybindings", "main", "HEAD", "."⟩
          ⟨["internal/server/files.go"], hooksDisk⟩ rewrittenDisk) ∧
      PullRequest.tier ⟨["internal/server/files.go"], hooksDisk⟩ = .t3 ∧
      PullRequest.passes Specutil.asciiLib (fun _ => .ok true)
        ⟨"keybindings", "main", "HEAD", "."⟩ ⟨["internal/server/files.go"], hooksDisk⟩ = false ∧
      PullRequest.passes Specutil.asciiLib (fun _ => .ok true) ⟨"keybindings", "main", "HEAD", "."⟩
        (PullRequest.edited ⟨"keybindings", "main", "HEAD", "."⟩
          ⟨["internal/server/files.go"], hooksDisk⟩ rewrittenDisk) = true := by
  refine ⟨sameBut_edited _ _ _, ?_⟩
  decide +kernel

end Uncworks.Gate
