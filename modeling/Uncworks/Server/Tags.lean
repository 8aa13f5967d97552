import Mathlib.Data.List.Dedup
import Uncworks.Go.Path
import Uncworks.Server.Filters

/-!
# Tags of runs

`CreateAgentRun` stores the tags of the request in the spec and, joined with commas, in an
annotation.  `EnrichRunTags` derives tags from the diff of the run and merges them into a label,
joined with underscores and cut to the length of a label.
-/

namespace Uncworks

open ListAgentRunsRequest List

def keyTags : String := "aot.uncworks.io/tags"

/-! ## `EnrichRunTags` -/

def fileExt (path : String) : String :=
  let last := path.toList.reverse.takeWhile (· != '/')
  if '.' ∈ last then String.ofList ('.' :: (last.takeWhile (· != '.')).reverse) else ""

def extToLang : List (String × String) :=
  [("go", "go"), ("ts", "typescript"), ("tsx", "typescript"), ("js", "javascript"),
    ("jsx", "javascript"), ("py", "python"), ("rs", "rust"), ("java", "java"), ("rb", "ruby"),
    ("css", "css"), ("scss", "css"), ("html", "html"), ("yaml", "yaml"), ("yml", "yaml"),
    ("json", "json"), ("md", "docs"), ("proto", "proto"), ("sql", "sql"), ("sh", "shell"),
    ("bash", "shell"), ("zsh", "shell")]

def diffFiles (diffStat : String) : List String :=
  ((Go.split '\n' (Go.trimSpace diffStat)).map Go.trimSpace).filterMap fun line =>
    if line = "" ∨ Go.contains line "files changed" ∨ Go.contains line "file changed" then none
    else
      let filePath := Go.trimSpace ((Go.splitN '|' 2 line.toList).headD "")
      if filePath = "" then none else some filePath

def scopeTag (fileCount : ℕ) : String :=
  if fileCount ≤ 3 then "scope-small" else if fileCount ≤ 10 then "scope-medium" else "scope-large"

/-- `deriveTagsFromDiff`, in one of the orders in which the map may be read. -/
def deriveTagsFromDiff (diffStat : String) : List String :=
  let files := diffFiles diffStat
  if files = [] then []
  else
    let langs := files.filterMap fun f => extToLang.lookup (Go.trimPrefix (fileExt f) ".")
    (langs ++ [scopeTag files.length]).dedup

def cutTags (tagValue : String) : String :=
  if 63 < tagValue.utf8ByteSize then
    let cut := Go.takeBytes 63 tagValue.toList
    let rest := (cut.reverse.dropWhile (· != '_')).tail
    String.ofList (if rest = [] then cut else rest.reverse)
  else tagValue

def mergeTags (existing : String) (newTags : List String) : String :=
  let tagSet := ((Go.split '_' existing).filter (· ≠ "") ++ newTags).dedup
  cutTags ("_".intercalate (tagSet.insertionSort (· ≤ ·)))

/-- The exit code and the output of `git diff`, and whether the AgentRun can be read and updated. -/
structure EnrichCalls where
  diff : Except String (ℤ × String)
  get : Bool := true
  update : Bool := true

def EnrichCalls.newTags (c : EnrichCalls) : List String :=
  match c.diff with
  | .ok (exitCode, stdout) => if exitCode = 0 then deriveTagsFromDiff stdout else []
  | .error _ => []

def Activities.enrichRunTags (c : EnrichCalls) (s : LabelledObject) : LabelledObject :=
  if c.newTags = [] ∨ !c.get ∨ !c.update then s
  else s.updateLabels (s.run.labels.set keyTags
    (mergeTags ((s.run.labels.lookup keyTags).getD "") c.newTags))

theorem enrichRunTags_object (c : EnrichCalls) (s : LabelledObject) :
    (Activities.enrichRunTags c s).object = s.object := by
  unfold Activities.enrichRunTags LabelledObject.updateLabels
  split_ifs <;> rfl

/-! ## Reported tags -/

def crdTagsOrLabel (run : LabelledRun) : List String :=
  if run.tags ≠ [] then run.tags
  else if run.annotation keyTags ≠ "" then Go.split ',' (run.annotation keyTags)
  else
    let label := (run.labels.lookup keyTags).getD ""
    if label ≠ "" then Go.split ',' label else []

/-- A run with its tags, created for a request and since then reconciled and enriched any number of
times, with the tags that each `EnrichRunTags` has derived. -/
inductive TagHistory (lib : Go.Lib) (liteLLMBaseURL : String) (req : CreateRequest) :
    List (List String) → LabelledObject → Prop
  | created (answer : Option String) (name : String) (s : LabelledObject) :
    s.run = newRun lib liteLLMBaseURL answer req name → TagHistory lib liteLLMBaseURL req [] s
  | reconciled (derived : List (List String)) (s : LabelledObject) (c : ProjectCalls) :
    TagHistory lib liteLLMBaseURL req derived s →
    TagHistory lib liteLLMBaseURL req derived (reconcileLabelled lib c s)
  | enriched (derived : List (List String)) (s : LabelledObject) (c : EnrichCalls) :
    TagHistory lib liteLLMBaseURL req derived s →
    TagHistory lib liteLLMBaseURL req (derived ++ [c.newTags]) (Activities.enrichRunTags c s)

structure KnownTags (req : CreateRequest) (derived : List (List String)) (s : LabelledObject) :
    Prop where
  tags : s.run.tags = req.tags
  annotation : req.tags = [] → s.run.annotation keyTags = ""
  label : (∀ tags ∈ derived, tags = []) → s.run.labels.lookup keyTags = none

variable {lib : Go.Lib} {liteLLMBaseURL : String} {req : CreateRequest}
  {derived : List (List String)} {s : LabelledObject}

theorem startLabels_tags {run} : (startLabels run).lookup keyTags = run.labels.lookup keyTags := by
  have hnone : lookup keyTags (startValues run) = none := by
    unfold startValues
    split_ifs <;> rfl
  rw [startLabels, Kube.Labels.lookup_setAll nodup_startValues, hnone, Option.none_or]

namespace KnownTags

theorem created {answer name} (h : s.run = newRun lib liteLLMBaseURL answer req name) :
    KnownTags req [] s := by
  refine ⟨h ▸ rfl, fun htags => ?_, fun _ => ?_⟩
  · simp [h, newRun, AgentRunCRD.annotation, htags]
  · have hkeys : ∀ run : LabelledRun, keyTags ∉ (createValues lib run).map Prod.fst := by
      intro run
      unfold createValues
      split <;> simp [keyTags]
    rw [h, newRun, createLabels, Kube.Labels.lookup_setAll nodup_filter_createValues,
      Kube.Labels.lookup_filter (· ≠ "") nodup_createValues, Kube.Labels.lookup_eq_none (hkeys _)]
    rfl

theorem reconciled (h : KnownTags req derived s) (c : ProjectCalls) :
    KnownTags req derived (reconcileLabelled lib c s) := by
  obtain hrun | ⟨run, hworkflow, hrun⟩ := reconcileLabelled_run lib c s
  · exact ⟨hrun ▸ h.tags, hrun ▸ h.annotation, hrun ▸ h.label⟩
  · obtain ⟨spec, url, hresolve, rfl⟩ := workflowRun_eq hworkflow
    obtain hrun | hrun := hrun
    · exact ⟨hrun ▸ h.tags, hrun ▸ h.annotation, hrun ▸ h.label⟩
    · refine ⟨hrun ▸ h.tags, hrun ▸ h.annotation, fun hderived => ?_⟩
      rw [hrun]
      exact startLabels_tags.trans (h.label hderived)

theorem updateLabels (h : KnownTags req derived s) (labels : Kube.Labels) {derived'}
    (hderived : ¬ ∀ tags ∈ derived', tags = []) :
    KnownTags req derived' (s.updateLabels labels) := by
  obtain hrun | hrun := s.updateLabels_run labels
  all_goals exact ⟨hrun ▸ h.tags, hrun ▸ h.annotation, fun hall => absurd hall hderived⟩

theorem enriched (h : KnownTags req derived s) (c : EnrichCalls) :
    KnownTags req (derived ++ [c.newTags]) (Activities.enrichRunTags c s) := by
  rw [Activities.enrichRunTags]
  split_ifs with hskip
  · exact ⟨h.tags, h.annotation, fun hall => h.label (forall_mem_append.1 hall).1⟩
  · exact h.updateLabels _ fun hall =>
      hskip (.inl ((forall_mem_append.1 hall).2 _ mem_cons_self))

end KnownTags

theorem TagHistory.known (h : TagHistory lib liteLLMBaseURL req derived s) :
    KnownTags req derived s := by
  induction h with
  | created answer name s hrun => exact .created hrun
  | reconciled derived s c h ih => exact ih.reconciled c
  | enriched derived s c h ih => exact ih.enriched c

/-! ## The tags as a whole -/

section Law

variable (lib : Go.Lib) (sort : Go.SliceSort ListedRun.newer) (items : List ListedRun)
  (req : CreateRequest) (derived : List (List String)) (list : ListAgentRunsRequest)

/-- The tags that are reported are those of the request and all that were derived, and the filter
finds the run by exactly these. -/
def TagsAgree (s : LabelledObject) (x : ListedRun) : Prop :=
  (∀ t, t ∈ crdTagsOrLabel s.run ↔ t ∈ req.tags ∨ ∃ tags ∈ derived, t ∈ tags) ∧
  ∀ t, t ≠ "" → (Lists lib sort items { list with tagFilter := t } x ↔ t ∈ crdTagsOrLabel s.run)

end Law

variable {sort : Go.SliceSort ListedRun.newer} {items : List ListedRun} {list : ListAgentRunsRequest}
  {x : ListedRun} {t : String}

theorem lists_tagFilter (hlist : list.invalid lib = none) (hmem : x ∈ items)
    (hmatch : list.matches_ x) (ht : t ≠ "") :
    Lists lib sort items { list with tagFilter := t } x ↔ t.utf8ByteSize ≤ 64 ∧ t ∈ x.tags := by
  obtain ⟨hlimit, -, hfeature, hproject, hparent⟩ := invalid_eq_none.1 hlist
  rw [Lists, invalid_eq_none, mem_allRuns]
  simp only [matches_, accepts, Bool.and_eq_true] at hmatch ⊢
  constructor
  · intro h
    exact ⟨h.1.2.1, by simpa [ht] using h.2.2.2.2⟩
  · rintro ⟨hlen, htag⟩
    exact ⟨⟨hlimit, hlen, hfeature, hproject, hparent⟩, hmem, hmatch.1, hmatch.2.1, by simp [htag]⟩

theorem matches_empty (h : x.run.status.archived = false) :
    ({} : ListAgentRunsRequest).matches_ x := by
  simp [matches_, accepts, selects,
    ListedRun.hasLabel, h]

theorem KnownTags.reported_of_nil (h : KnownTags req derived s) (htags : req.tags = []) :
    crdTagsOrLabel s.run = [] ∨ ∃ t, t ≠ "" ∧ crdTagsOrLabel s.run = [t] := by
  have hrun := h.tags.trans htags
  rw [crdTagsOrLabel, if_neg (not_not.2 hrun), if_neg (not_not.2 (h.annotation htags))]
  cases hlabel : s.run.labels.lookup keyTags with
  | none => exact .inl rfl
  | some v =>
    by_cases hempty : v = ""
    · exact .inl (by simp [hempty])
    · obtain ⟨htext, -⟩ :=
        Kube.validLabelValue_iff.1 (Kube.Labels.valid_of_lookup s.admitted hlabel)
      have hcomma : ',' ∉ v.toList := fun hmem => absurd (htext.chars _ hmem) (by decide)
      refine .inr ⟨v, hempty, ?_⟩
      simp only [Option.getD_some, ne_eq, hempty, not_false_iff, if_true]
      exact Go.split_eq_singleton hcomma

theorem KnownTags.reported_of_ne_nil (h : KnownTags req derived s) (htags : req.tags ≠ []) :
    crdTagsOrLabel s.run = req.tags := by
  rw [crdTagsOrLabel, if_pos (h.tags ▸ htags), h.tags]

theorem KnownTags.reported_of_underived (h : KnownTags req derived s) (htags : req.tags = [])
    (hderived : ∀ tags ∈ derived, tags = []) : crdTagsOrLabel s.run = [] := by
  have hrun := h.tags.trans htags
  rw [crdTagsOrLabel, if_neg (not_not.2 hrun), if_neg (not_not.2 (h.annotation htags)),
    h.label hderived]
  rfl

/-- The tags agree exactly if all that were derived are among those of the request, and none of
these is longer than a filter may be. -/
theorem tagsAgree_iff (h : TagHistory lib liteLLMBaseURL req derived s) (created : ℕ) (stage : String)
    (sort : Go.SliceSort ListedRun.newer) (items : List ListedRun) (list : ListAgentRunsRequest)
    (hmem : s.listed created stage ∈ items) (hlist : list.invalid lib = none)
    (hmatch : list.matches_ (s.listed created stage)) :
    TagsAgree lib sort items req derived list s (s.listed created stage) ↔
      (∀ tags ∈ derived, ∀ t ∈ tags, t ∈ req.tags) ∧ ∀ t ∈ req.tags, t.utf8ByteSize ≤ 64 := by
  have hknown := h.known
  have hfilter : ∀ t, t ≠ "" → (Lists lib sort items { list with tagFilter := t }
      (s.listed created stage) ↔ t.utf8ByteSize ≤ 64 ∧ t ∈ req.tags) := by
    intro t ht
    rw [lists_tagFilter hlist hmem hmatch ht, ← hknown.tags]
    rfl
  by_cases htags : req.tags = []
  · rw [htags] at hfilter ⊢
    constructor
    · rintro ⟨hreported, hfound⟩
      refine ⟨fun tags htags' t ht => ?_, by simp⟩
      -- a tag that is reported is found by no filter
      have hmem := (hreported t).2 (.inr ⟨tags, htags', ht⟩)
      obtain hnone | ⟨u, hu, hone⟩ := hknown.reported_of_nil htags
      · simp [hnone] at hmem
      · have hlisted := (hfound u hu).2 (by simp [hone])
        simp [hfilter u hu] at hlisted
    · rintro ⟨hderived, -⟩
      have hnil : ∀ tags ∈ derived, tags = [] := fun tags ht =>
        eq_nil_iff_forall_not_mem.2 fun t hmem => not_mem_nil (hderived tags ht t hmem)
      rw [TagsAgree, hknown.reported_of_underived htags hnil, htags]
      refine ⟨fun t => ?_, fun t ht => by simp [hfilter t ht]⟩
      simp only [not_mem_nil, false_or, false_iff, not_exists, not_and]
      exact fun tags ht hmem => not_mem_nil (hderived tags ht t hmem)
  · rw [TagsAgree, hknown.reported_of_ne_nil htags]
    constructor
    · rintro ⟨hreported, hfound⟩
      refine ⟨fun tags ht t hmem => (hreported t).2 (.inr ⟨tags, ht, hmem⟩), fun t ht => ?_⟩
      by_cases hempty : t = ""
      · rw [hempty]
        decide
      · exact ((hfilter t hempty).1 ((hfound t hempty).2 ht)).1
    · rintro ⟨hderived, hlen⟩
      refine ⟨fun t => ⟨.inl, ?_⟩, fun t ht => ?_⟩
      · rintro (ht | ⟨tags, ht, hmem⟩)
        · exact ht
        · exact hderived tags ht t hmem
      · rw [hfilter t ht]
        exact ⟨fun hboth => hboth.2, fun hmem => ⟨hlen t hmem, hmem⟩⟩

def mainGoCalls : EnrichCalls where
  diff := .ok (0, " main.go | 4 ++--\n 1 file changed, 2 insertions(+), 2 deletions(-)")

section

variable (tags : List String)

def taggedRequest : CreateRequest where
  spec := { prompt := "Fix the login" }
  tags := tags

def taggedObject : LabelledObject where
  object := { name := "ar-k3f9qz", finalizer := true }
  run := newRun sampleEnv.toLib "" none (taggedRequest tags) "ar-k3f9qz"
  admitted := by
    rw [admitted_newRun]
    simp [taggedRequest, FitsLabel]

def enrichedObject : LabelledObject := Activities.enrichRunTags mainGoCalls (taggedObject tags)

theorem mainGoCalls_newTags : mainGoCalls.newTags = ["go", "scope-small"] := by decide +kernel

theorem enrichedObject_history :
    TagHistory sampleEnv.toLib "" (taggedRequest tags) [["go", "scope-small"]]
      (enrichedObject tags) := by
  have hcreated : TagHistory sampleEnv.toLib "" (taggedRequest tags) [] (taggedObject tags) :=
    .created none "ar-k3f9qz" _ rfl
  exact mainGoCalls_newTags ▸ hcreated.enriched [] _ mainGoCalls

theorem enrichedObject_matches :
    ({} : ListAgentRunsRequest).matches_ ((enrichedObject tags).listed 0 "") := by
  refine matches_empty ?_
  have hobject : (enrichedObject tags).object = (taggedObject tags).object := by
    rw [enrichedObject, enrichRunTags_object]
  simp [LabelledObject.listed, hobject, taggedObject]

end

theorem tagsAgree_go :
    TagsAgree sampleEnv.toLib stableSort [(enrichedObject ["go", "scope-small"]).listed 0 ""]
      (taggedRequest ["go", "scope-small"]) [["go", "scope-small"]] {}
      (enrichedObject ["go", "scope-small"]) ((enrichedObject ["go", "scope-small"]).listed 0 "") :=
  (tagsAgree_iff (enrichedObject_history ["go", "scope-small"]) 0 "" stableSort _ {}
    mem_cons_self rfl (enrichedObject_matches _)).2 ⟨by decide, by decide⟩

/-- A run without tags is reported with one tag that is none of those derived, and that no filter
finds; of a run with tags of its own, none of those derived are reported. -/
theorem derived_tags_lost :
    TagHistory sampleEnv.toLib "" (taggedRequest []) [["go", "scope-small"]] (enrichedObject []) ∧
    crdTagsOrLabel (enrichedObject []).run = ["go_scope-small"] ∧
    ¬ Lists sampleEnv.toLib stableSort [(enrichedObject []).listed 0 ""]
      { tagFilter := "go_scope-small" } ((enrichedObject []).listed 0 "") ∧
    TagHistory sampleEnv.toLib "" (taggedRequest ["bugfix"]) [["go", "scope-small"]]
      (enrichedObject ["bugfix"]) ∧
    crdTagsOrLabel (enrichedObject ["bugfix"]).run = ["bugfix"] := by
  have hnil := (enrichedObject_history []).known
  have hbugfix := (enrichedObject_history ["bugfix"]).known
  refine ⟨enrichedObject_history [], ?_, ?_, enrichedObject_history ["bugfix"],
    hbugfix.reported_of_ne_nil (by decide)⟩
  · decide +kernel
  · intro hlists
    have hfound :=
      lists_tagFilter rfl mem_cons_self (enrichedObject_matches _) (by decide) |>.1 hlists
    simp [LabelledObject.listed, hnil.tags, taggedRequest] at hfound

end Uncworks
