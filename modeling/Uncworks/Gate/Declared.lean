import Uncworks.Gate.Verdicts
import Uncworks.Go.Strings

/-!
# Paths that an Impact section declares

A path in backquotes goes a long way from the proposal to `coveredBy`: the section must be the
Impact section, the line a list item of the top level outside fenced code, the field must survive
the trimming of punctuation and then look like a path.
-/

namespace Uncworks.Gate

open List

open Specutil (Lib Change Section isFence)

/-! ## Naming a path -/

def Names (text p : String) : Prop := ∃ pre post, text.toList = pre ++ '`' :: (p.toList ++ '`' :: post)

/-- A line is a list item, indented by one character at most. -/
def IsItem (line : String) : Prop :=
  ∃ (indent : List Char) (marker : Char) (rest : List Char),
    line.toList = indent ++ marker :: ' ' :: rest ∧ indent.length ≤ 1 ∧
      (∀ c ∈ indent, c = ' ' ∨ c = '\t') ∧ (marker = '-' ∨ marker = '*')

def Unfenced (body : List String) (line : String) : Prop :=
  ∃ pre post, body = pre ++ line :: post ∧ isFence line = false ∧ pre.countP isFence % 2 = 0

/-- A path that a field can be: without the characters that separate fields, and with others than
punctuation at its ends. -/
structure Declarable (p : String) : Prop where
  separators : ∀ c ∈ p.toList, isSeparator c = false
  head : ∀ c ∈ p.toList.head?, isPunctuation c = false
  last : ∀ c ∈ p.toList.getLast?, isPunctuation c = false
  looks : looksLikePath p = true

/-! ## From the line to the field -/

section Stages

variable {p line bullet : String}

theorem dropWhile_append_cons {q c} (hc : q c = false) (pre rest : List Char) :
    ∃ pre', (pre ++ c :: rest).dropWhile q = pre' ++ c :: rest := by
  induction pre with
  | nil => exact ⟨[], by simp [hc]⟩
  | cons d pre ih =>
    by_cases hd : q d
    · rw [cons_append, dropWhile_cons_of_pos hd]
      exact ih
    · exact ⟨d :: pre, by rw [cons_append, dropWhile_cons_of_neg hd]⟩

theorem Names.trimSpace (h : Names line p) : Names (Go.trimSpace line) p := by
  obtain ⟨pre, post, htext⟩ := h
  obtain ⟨pre', hpre⟩ := dropWhile_append_cons (show Go.isSpace '`' = false by decide) pre
    (p.toList ++ '`' :: post)
  have hreverse : (pre' ++ '`' :: (p.toList ++ '`' :: post)).reverse =
      post.reverse ++ '`' :: (p.toList.reverse ++ '`' :: pre'.reverse) := by simp
  obtain ⟨post', hpost⟩ := dropWhile_append_cons (show Go.isSpace '`' = false by decide) post.reverse
    (p.toList.reverse ++ '`' :: pre'.reverse)
  refine ⟨pre', post'.reverse, ?_⟩
  rw [Go.trimSpace, htext, hpre, hreverse, hpost]
  simp

theorem append_cons_of_not_mem {c} {a b u v : List Char} (h : a ++ c :: b = u ++ v) (hu : c ∉ u) :
    ∃ a', v = a' ++ c :: b := by
  rcases append_eq_append_iff.1 h with ⟨a', rfl, hcons⟩ | ⟨c', rfl, rfl⟩
  · cases a' with
    | nil => exact ⟨[], hcons.symm⟩
    | cons d a' =>
      rw [cons_append, cons.injEq] at hcons
      exact absurd (hcons.1 ▸ by simp) hu
  · exact ⟨c', rfl⟩

theorem bullet?_of_item (hitem : IsItem line) (hnames : Names line p) :
    ∃ bullet, Specutil.bullet? line = some bullet ∧ Names bullet p := by
  obtain ⟨indent, marker, rest, hline, hindent, hblank, hmarker⟩ := hitem
  obtain ⟨pre, post, htext⟩ := hnames
  have hdrop : line.toList.dropWhile (fun c => decide (c = ' ' ∨ c = '\t')) =
      marker :: ' ' :: rest := by
    rw [hline, dropWhile_append_of_pos (by simpa using hblank)]
    rcases hmarker with rfl | rfl <;> rfl
  have hback : '`' ∉ indent ++ [marker, ' '] := by
    intro hmem
    rcases mem_append.1 hmem with hmem | hmem
    · rcases hblank _ hmem with h | h <;> exact absurd h (by decide)
    · rcases hmarker with rfl | rfl <;> exact absurd hmem (by decide)
  have hsplit : pre ++ '`' :: (p.toList ++ '`' :: post) = (indent ++ [marker, ' ']) ++ rest := by
    rw [← htext, hline]
    simp
  obtain ⟨pre', hrest⟩ := append_cons_of_not_mem hsplit hback
  refine ⟨Go.trimSpace (String.ofList rest), ?_, Names.trimSpace ⟨pre', post, by simpa using hrest⟩⟩
  have hlength : ¬ 1 < line.toList.length - (marker :: ' ' :: rest).length := by
    rw [hline]
    simp
    omega
  have hprefix : ['-', ' '].isPrefixOf (marker :: ' ' :: rest) ∨
      ['*', ' '].isPrefixOf (marker :: ' ' :: rest) := by
    rcases hmarker with rfl | rfl <;> simp
  simp only [Specutil.bullet?, hdrop]
  rw [if_neg hlength, if_pos hprefix]
  rfl

theorem mem_bulletsOf {inFence pre post} (hbullet : Specutil.bullet? line = some bullet)
    (hline : isFence line = false) (hpre : (pre.countP isFence + inFence.toNat) % 2 = 0) :
    bullet ∈ Specutil.bulletsOf inFence (pre ++ line :: post) := by
  induction pre generalizing inFence with
  | nil =>
    cases inFence with
    | false => simp [Specutil.bulletsOf, hline, hbullet]
    | true => simp at hpre
  | cons first pre ih =>
    rw [cons_append, Specutil.bulletsOf]
    rw [countP_cons] at hpre
    by_cases hfirst : isFence first
    · rw [if_pos hfirst] at hpre ⊢
      refine ih ?_
      cases inFence <;> simp at hpre ⊢ <;> omega
    · rw [if_neg hfirst] at hpre ⊢
      split
      · exact ih hpre
      · exact mem_append_right _ (ih hpre)

theorem mem_bulletFields (hp : Declarable p) (hnames : Names bullet p) : p ∈ bulletFields bullet := by
  obtain ⟨pre, post, htext⟩ := hnames
  have hback : isSeparator '`' = true := by decide
  have hne : p.toList ≠ [] := by
    intro hnil
    have hlooks := hp.looks
    rw [String.toList_eq_nil_iff.1 hnil] at hlooks
    exact absurd hlooks (by decide)
  refine mem_map.2 ⟨p.toList, mem_filter.2 ⟨?_, by simpa using hne⟩, ?_⟩
  · rw [htext, splitOnP_append_cons _ _ hback, splitOnP_append_cons _ _ hback,
      splitOnP_eq_singleton hp.separators]
    simp
  · rw [Go.trimFunc_eq_self hp.head hp.last, String.ofList_toList]

theorem mem_dedupe {items} : p ∈ dedupe items ↔ p ∈ items := by
  have h : p ∈ (Dedup.firsts some [] items).filterMap some ↔ p ∈ items.filterMap some ∧ p ∉ [] :=
    Dedup.mem_filterMap_firsts
  simpa [dedupe] using h

end Stages

/-! ## Declared paths -/

theorem covers_self (p : String) : covers p p = true := by
  unfold covers Go.trimSuffix
  split
  · next hslash =>
    obtain ⟨stem, hstem⟩ := isSuffixOf_iff_suffix.1 hslash
    have htoList : "/".toList = ['/'] := by decide
    have hp : p = String.ofList stem ++ "/" := String.toList_inj.1 (by simp [← hstem])
    have htake : p.toList.take (p.toList.length - "/".toList.length) = stem := by
      simp [← hstem]
    rw [htake]
    simp only [Bool.or_eq_true]
    exact Or.inr (Go.hasPrefix_iff.2 ⟨"", by rw [← hp, String.append_empty]⟩)
  · simp

/-- A path that a list item of the Impact section has in backquotes is covered: it is not reported
as undeclared or unclaimed, and claims the diff if it has to be claimed. -/
theorem coveredBy_declared (lib : Lib) (change : Change) (proposal : Specutil.Artifact)
    (impact : Section) (p line : String) (changed : List String)
    (hproposal : change.artifacts "proposal" = some proposal)
    (himpact : proposal.section lib "## Impact" = some impact) (hline : Unfenced impact.body line)
    (hitem : IsItem line) (hnames : Names line p) (hp : Declarable p) :
    coveredBy (declaredPaths lib change) p = true ∧
      p ∉ undeclaredPaths (declaredPaths lib change) changed ∧
      p ∉ unclaimedPaths lib change changed ∧
      (p ∈ claimable changed → unclaimedPaths lib change changed = []) := by
  obtain ⟨bullet, hbullet, hfield⟩ := bullet?_of_item hitem hnames
  obtain ⟨pre, post, hbody, hfence, heven⟩ := hline
  have hmem : bullet ∈ impact.bullets := by
    rw [Section.bullets, hbody]
    exact mem_bulletsOf hbullet hfence (by simpa using heven)
  have hdeclared : p ∈ declaredPaths lib change := by
    simp only [declaredPaths, hproposal, himpact, mem_dedupe, mem_sortStrings, List.mem_filter,
      List.mem_flatMap]
    exact ⟨⟨bullet, hmem, mem_bulletFields hp hfield⟩, hp.looks⟩
  have hcovered : coveredBy (declaredPaths lib change) p = true :=
    List.any_eq_true.2 ⟨p, hdeclared, covers_self p⟩
  have hclaimed : p ∈ claimable changed → unclaimedPaths lib change changed = [] := fun hclaim =>
    unclaimedPaths_eq_nil_iff.2 (Or.inr ⟨p, hclaim, hcovered⟩)
  refine ⟨hcovered, ?_, ?_, hclaimed⟩
  · simp [undeclaredPaths, hcovered]
  · intro hunclaimed
    unfold unclaimedPaths at hunclaimed
    simp only at hunclaimed
    split at hunclaimed
    · exact List.not_mem_nil hunclaimed
    · simp [hcovered] at hunclaimed

def gateProposal : Specutil.Artifact :=
  ⟨"proposal", "openspec/changes/g/proposal.md", "## Impact\n\n- Code: `internal/gate/gate.go`.\n",
    Specutil.parseSections "## Impact\n\n- Code: `internal/gate/gate.go`.\n"⟩

theorem coveredBy_declared_gate :
    coveredBy (declaredPaths Specutil.asciiLib ⟨"g", "openspec/changes/g", fun _ => gateProposal⟩)
      "internal/gate/gate.go" = true := by
  have himpact : gateProposal.section Specutil.asciiLib "## Impact" =
      some ⟨"## Impact", 2, 1, ["", "- Code: `internal/gate/gate.go`.", ""]⟩ := by decide +kernel
  have hseparators : ("internal/gate/gate.go".toList.all fun c => !isSeparator c) = true := by decide
  have hhead : "internal/gate/gate.go".toList.head? = some 'i' := rfl
  have hlast : "internal/gate/gate.go".toList.getLast? = some 'o' := rfl
  have hp : Declarable "internal/gate/gate.go" :=
    ⟨fun c hc => by simpa using List.all_eq_true.1 hseparators c hc, by rw [hhead]; rintro c ⟨⟩; rfl,
      by rw [hlast]; rintro c ⟨⟩; rfl, by decide +kernel⟩
  exact (coveredBy_declared Specutil.asciiLib ⟨"g", "openspec/changes/g", fun _ => gateProposal⟩
    gateProposal ⟨"## Impact", 2, 1, ["", "- Code: `internal/gate/gate.go`.", ""]⟩
    "internal/gate/gate.go" "- Code: `internal/gate/gate.go`." [] rfl himpact
    ⟨[""], [""], rfl, by decide +kernel, by decide +kernel⟩
    ⟨[], '-', "Code: `internal/gate/gate.go`.".toList, by decide +kernel, by decide, by simp, Or.inl rfl⟩
    ⟨"- Code: ".toList, ['.'], by decide +kernel⟩ hp).1

/-- A proposal that declares a file without a slash or a source extension, and one in a nested item. -/
def toolsProposal : Specutil.Artifact :=
  ⟨"proposal", "openspec/changes/t/proposal.md",
    "## Impact\n\n- Build: `Makefile`\n- Code:\n  - `internal/gate/gate.go`\n",
    Specutil.parseSections
      "## Impact\n\n- Build: `Makefile`\n- Code:\n  - `internal/gate/gate.go`\n"⟩

/-- Both items are in the Impact section, and neither path is covered. -/
theorem makefile_not_declared :
    (∃ s ∈ Specutil.documentedSections toolsProposal.text, s.heading = "## Impact" ∧
      "- Build: `Makefile`" ∈ s.body ∧ "  - `internal/gate/gate.go`" ∈ s.body) ∧
    coveredBy (declaredPaths Specutil.asciiLib ⟨"t", "openspec/changes/t", fun _ => toolsProposal⟩)
      "Makefile" = false ∧
    coveredBy (declaredPaths Specutil.asciiLib ⟨"t", "openspec/changes/t", fun _ => toolsProposal⟩)
      "internal/gate/gate.go" = false := by
  decide +kernel

end Uncworks.Gate
