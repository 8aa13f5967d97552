import Uncworks.Controller.Mapping
import Uncworks.Kube.Labels
import Uncworks.Server.Admission

/-!
# Labels and names of new runs

`CreateAgentRun` labels the AgentRun it creates with its project, its feature and the name of its
first repository, so that runs can be listed by them.  The texts are turned into label values by
`sanitizeLabelValue`, which cuts them after it has trimmed them.
-/

namespace Uncworks

open Kube Go List

/-! ## `sanitizeLabelValue` -/

/-- `sanitizeLabelValue`; after the first replacement all characters are ASCII. -/
def sanitizeLabelValue (v : String) : String :=
  let v := v.toList.map fun c => if isLabelChar c then c else '-'
  let v := trimFunc (fun c => !c.isAlphanum) v
  String.ofList (v.take 63)

example : sanitizeLabelValue "Web Platform (v2)" = "Web-Platform--v2" := by decide

/-- The text from its first letter or digit on is not cut, or it is cut behind a letter or a digit.
-/
def FitsLabel (v : String) : Prop :=
  let v := v.toList.dropWhile fun c => !c.isAlphanum
  (∀ c ∈ v.drop 63, c.isAlphanum = false) ∨ ∃ c, v[62]? = some c ∧ c.isAlphanum

/-! ## Display names -/

def isNameChar (c : Char) : Bool := c.isLower || c.isDigit || c = '-'

def squeezeHyphens : List Char → List Char
  | a :: b :: rest =>
    if a = '-' ∧ b = '-' then squeezeHyphens (b :: rest) else a :: squeezeHyphens (b :: rest)
  | rest => rest

def nameOfWords (lib : Lib) (prompt : String) : List Char :=
  let words := (fields prompt).take 5
  let name := (lib.toLower ("-".intercalate words)).toList
  let name := squeezeHyphens (name.filter isNameChar)
  trimFunc (· == '-') name

def deriveNameFromPrompt (lib : Lib) (prompt : String) : String :=
  String.ofList ((nameOfWords lib prompt).take 50)

def validDisplayName (name : String) : Bool :=
  4 ≤ name.toList.length && name.toList.length ≤ 50 && name.toList.all isNameChar &&
    name.toList.head?.all (· ≠ '-') && name.toList.getLast?.all (· ≠ '-')

section

variable (lib : Lib) (liteLLMBaseURL prompt : String) (answer : Option String)

/-- `generateDisplayName`.  `answer` is the text of the first choice of the language model, if the
request succeeds. -/
def generateDisplayName : String :=
  if liteLLMBaseURL = "" ∨ prompt = "" then ""
  else match answer with
    | none => deriveNameFromPrompt lib prompt
    | some content =>
      let name := trimSpace (lib.toLower content)
      if validDisplayName name then name else deriveNameFromPrompt lib prompt

/-- The display name is not cut behind a hyphen: there is none, the language model gives it, or the
name of the prompt is short enough or has another character at the cut. -/
def DisplayNameFits : Prop :=
  liteLLMBaseURL = "" ∨ prompt = "" ∨
    (∃ content, answer = some content ∧ validDisplayName (trimSpace (lib.toLower content))) ∨
    (nameOfWords lib prompt).length ≤ 50 ∨ (nameOfWords lib prompt)[49]? ≠ some '-'

/-! ## `CreateAgentRun` -/

/-- An AgentRun resource with its labels, and the fields of its spec that only go into labels and
annotations. -/
structure LabelledRun extends AgentRunCRD where
  feature : String := ""
  tags : List String := []
  labels : Labels := []

def nameFromURL (repoURL : String) : String :=
  if repoURL = "" then ""
  else
    let fallback := trimSuffix (base repoURL) ".git"
    match lib.urlPath repoURL with
    | none => fallback
    | some path =>
      let base := base path
      if path ≠ "" ∧ path ≠ "/" ∧ base ≠ "." ∧ base ≠ "/" then trimSuffix base ".git"
      else fallback

def createValues (run : LabelledRun) : List (String × String) :=
  [("aot.uncworks.io/project", sanitizeLabelValue run.spec.project),
    ("aot.uncworks.io/feature", sanitizeLabelValue run.feature)] ++
  match run.spec.repos with
  | [] => []
  | repo :: _ => [("aot.uncworks.io/repo", sanitizeLabelValue (nameFromURL lib repo.url))]

def createLabels (run : LabelledRun) : Labels :=
  run.labels.setAll ((createValues lib run).filter fun l => l.2 ≠ "")

end

/-- What `CreateAgentRun` is called with: the spec of the request, as `specProtoToCRD` copies it. -/
structure CreateRequest where
  spec : AgentRunSpec := {}
  feature : String := ""
  tags : List String := []

section

variable (lib : Lib) (liteLLMBaseURL : String) (answer : Option String) (req : CreateRequest)

def newRun (name : String) : LabelledRun :=
  let run : LabelledRun :=
    { name
      spec := { req.spec with
        displayName := generateDisplayName lib liteLLMBaseURL req.spec.prompt answer }
      feature := req.feature
      tags := req.tags
      annotations :=
        if req.tags = [] then [] else [("aot.uncworks.io/tags", ",".intercalate req.tags)] }
  { run with labels := createLabels lib run }

/-- `CreateAgentRun`.  `name` is a generated one, and `err` an error of the create call that has
nothing to do with the labels. -/
def createAgentRun (name : Except String String) (err : Option String) :
    Except ApiError LabelledRun := do
  let run := newRun lib liteLLMBaseURL answer req (name.toOption.getD "")
  let rejection := if run.labels.admitted then err else some "metadata.labels: Invalid value"
  let checked : CreateAgentRunSpec :=
    { prompt := req.spec.prompt, specContent := req.spec.specContent, modelTier := req.spec.modelTier }
  let _ ← createName lib (some checked) name rejection
  return run

end

/-! ## Which values are valid -/

section Sanitize

variable {v : String}

def toLabelChar (c : Char) : Char := if isLabelChar c then c else '-'

theorem isLabelChar_toLabelChar (c : Char) : isLabelChar (toLabelChar c) := by
  unfold toLabelChar
  split
  · assumption
  · decide

theorem isAlphanum_toLabelChar (c : Char) : (toLabelChar c).isAlphanum = c.isAlphanum := by
  unfold toLabelChar
  split
  · rfl
  · rename_i h
    have hno : c.isAlphanum = false := by
      rw [isLabelChar, Bool.or_assoc, Bool.or_assoc, Bool.or_eq_true, not_or] at h
      exact Bool.eq_false_iff.2 h.1
    rw [hno]
    decide

theorem sanitizeLabelValue_eq (v : String) :
    sanitizeLabelValue v =
      String.ofList (((trimFunc (!·.isAlphanum) v.toList).map toLabelChar).take 63) := by
  rw [← trimFunc_map fun c => by rw [isAlphanum_toLabelChar]]
  rfl

theorem labelText_map_trimFunc (v : List Char) :
    LabelText ((trimFunc (!·.isAlphanum) v).map toLabelChar) := by
  refine ⟨?_, ?_, ?_⟩
  · simp only [mem_map, forall_exists_index, and_imp, forall_apply_eq_imp_iff₂]
    exact fun c _ => isLabelChar_toLabelChar c
  · intro d hd
    rw [head?_map] at hd
    obtain ⟨c, hc, rfl⟩ := Option.map_eq_some_iff.1 hd
    rw [isAlphanum_toLabelChar]
    simpa using head_trimFunc hc
  · intro d hd
    rw [getLast?_map] at hd
    obtain ⟨c, hc, rfl⟩ := Option.map_eq_some_iff.1 hd
    rw [isAlphanum_toLabelChar]
    simpa using getLast_trimFunc hc

theorem valid_sanitizeLabelValue : validLabelValue (sanitizeLabelValue v) ↔ FitsLabel v := by
  have hlen : (((trimFunc (!·.isAlphanum) v.toList).map toLabelChar).take 63).length ≤
      maxLabelLength := length_take_le _ _
  rw [sanitizeLabelValue_eq, validLabelValue_iff, String.toList_ofList,
    and_iff_left hlen, (labelText_map_trimFunc v.toList).take_iff, length_map, FitsLabel]
  by_cases hshort : (trimFunc (!·.isAlphanum) v.toList).length ≤ 63
  · have hrest := length_trimFunc_le.1 hshort
    exact ⟨fun _ => .inl fun c hc => by simpa using hrest c hc, fun _ => .inl hshort⟩
  · -- the cut leaves 63 characters of the trimmed text, which are those of the text itself
    obtain ⟨rest, hrest⟩ := trimFunc_prefix (p := (!·.isAlphanum)) (s := v.toList)
    have hlong : ¬ ∀ c ∈ (v.toList.dropWhile (!·.isAlphanum)).drop 63, c.isAlphanum = false := by
      intro hall
      exact hshort (length_trimFunc_le.2 fun c hc => by simp [hall c hc])
    have hget : (v.toList.dropWhile (!·.isAlphanum))[62]? =
        (trimFunc (!·.isAlphanum) v.toList)[62]? := by
      rw [← hrest, getElem?_append_left (by omega)]
    rw [or_iff_right hshort, or_iff_right hlong, hget, getElem?_map]
    cases (trimFunc (!·.isAlphanum) v.toList)[62]? <;> simp [isAlphanum_toLabelChar]

theorem sanitizeLabelValue_eq_self : sanitizeLabelValue v = v ↔ validLabelValue v := by
  rw [validLabelValue_iff, sanitizeLabelValue_eq, ← String.toList_inj, String.toList_ofList]
  constructor
  · intro h
    have hle : (trimFunc (!·.isAlphanum) v.toList).length ≤ v.toList.length :=
      trimFunc_sublist.length_le
    have hlen := congrArg length h
    rw [length_take] at hlen
    rw [take_of_length_le (by rw [length_map]; omega)] at h
    refine ⟨h ▸ labelText_map_trimFunc v.toList, ?_⟩
    rw [maxLabelLength]
    omega
  · rintro ⟨htext, hlen⟩
    have htrim : trimFunc (!·.isAlphanum) v.toList = v.toList :=
      trimFunc_eq_self (fun c hc => by simp [htext.head c hc]) fun c hc => by
        simp [htext.last c hc]
    have hmap : v.toList.map toLabelChar = v.toList := by
      conv_rhs => rw [← map_id v.toList]
      exact map_congr_left fun c hc => if_pos (htext.chars c hc)
    rw [htrim, hmap]
    exact take_of_length_le hlen

end Sanitize

section DisplayName

variable {lib : Lib} {liteLLMBaseURL prompt : String} {answer : Option String} {c : Char}

theorem isAlphanum_of_isNameChar (h : isNameChar c) : c.isAlphanum ↔ c ≠ '-' := by
  by_cases hc : c = '-'
  · subst hc
    decide
  · simp only [isNameChar, hc, decide_false, Bool.or_false] at h
    refine iff_of_true ?_ hc
    show ((c.isUpper || c.isLower) || c.isDigit) = true
    rw [Bool.or_assoc, h, Bool.or_true]

theorem isLabelChar_of_isNameChar (h : isNameChar c) : isLabelChar c := by
  by_cases hc : c = '-'
  · subst hc
    decide
  · simp [isLabelChar, (isAlphanum_of_isNameChar h).2 hc]

theorem mem_of_mem_squeezeHyphens {name} (h : c ∈ squeezeHyphens name) : c ∈ name := by
  fun_induction squeezeHyphens name with
  | case1 a b rest hab ih => exact mem_cons_of_mem _ (ih h)
  | case2 a b rest hab ih =>
    obtain rfl | h := mem_cons.1 h
    · exact mem_cons_self
    · exact mem_cons_of_mem _ (ih h)
  | case3 rest => exact h

theorem isNameChar_of_mem_nameOfWords (h : c ∈ nameOfWords lib prompt) : isNameChar c := by
  have hmem := mem_of_mem_squeezeHyphens (trimFunc_sublist.subset h)
  exact (mem_filter.1 hmem).2

theorem labelText_nameOfWords (lib : Lib) (prompt : String) :
    LabelText (nameOfWords lib prompt) := by
  refine ⟨fun c hc => isLabelChar_of_isNameChar (isNameChar_of_mem_nameOfWords hc), ?_, ?_⟩
  · intro c hc
    rw [isAlphanum_of_isNameChar (isNameChar_of_mem_nameOfWords (mem_of_mem_head? hc))]
    simpa using head_trimFunc hc
  · intro c hc
    rw [isAlphanum_of_isNameChar (isNameChar_of_mem_nameOfWords (mem_of_getLast? hc))]
    simpa using getLast_trimFunc hc

theorem valid_deriveNameFromPrompt :
    validLabelValue (deriveNameFromPrompt lib prompt) ↔
      (nameOfWords lib prompt).length ≤ 50 ∨ (nameOfWords lib prompt)[49]? ≠ some '-' := by
  have hlen : ((nameOfWords lib prompt).take 50).length ≤ maxLabelLength :=
    (length_take_le _ _).trans (by decide)
  rw [deriveNameFromPrompt, validLabelValue_iff, String.toList_ofList, and_iff_left hlen,
    (labelText_nameOfWords lib prompt).take_iff]
  by_cases hshort : (nameOfWords lib prompt).length ≤ 50
  · exact ⟨fun _ => .inl hshort, fun _ => .inl hshort⟩
  · obtain ⟨c, hc⟩ : ∃ c, (nameOfWords lib prompt)[49]? = some c :=
      Option.isSome_iff_exists.1 (by simp; omega)
    have hname := isNameChar_of_mem_nameOfWords (mem_of_getElem? hc)
    simp [hc, isAlphanum_of_isNameChar hname]

theorem valid_of_validDisplayName {name} (h : validDisplayName name) : validLabelValue name := by
  simp only [validDisplayName, Bool.and_eq_true, decide_eq_true_iff, all_eq_true] at h
  obtain ⟨⟨⟨⟨-, hlen⟩, hchars⟩, hhead⟩, hlast⟩ := h
  refine validLabelValue_iff.2 ⟨⟨?_, ?_, ?_⟩, hlen.trans (by decide)⟩
  · exact fun c hc => isLabelChar_of_isNameChar (hchars c hc)
  · intro c hc
    rw [isAlphanum_of_isNameChar (hchars c (mem_of_mem_head? hc))]
    simpa [Option.mem_def.1 hc] using hhead
  · intro c hc
    rw [isAlphanum_of_isNameChar (hchars c (mem_of_getLast? hc))]
    simpa [Option.mem_def.1 hc] using hlast

theorem valid_generateDisplayName :
    validLabelValue (generateDisplayName lib liteLLMBaseURL prompt answer) ↔
      DisplayNameFits lib liteLLMBaseURL prompt answer := by
  unfold generateDisplayName
  by_cases hskip : liteLLMBaseURL = "" ∨ prompt = ""
  · rw [if_pos hskip]
    exact ⟨fun _ => hskip.elim .inl (.inr ∘ .inl), fun _ => by decide⟩
  · rw [if_neg hskip, DisplayNameFits, ← or_assoc, or_iff_right hskip,
      ← valid_deriveNameFromPrompt]
    cases answer with
    | none => simp
    | some content =>
      by_cases hname : validDisplayName (trimSpace (lib.toLower content))
      · simp [hname, valid_of_validDisplayName hname]
      · simp [hname]

end DisplayName

section Create

variable {lib : Lib} {liteLLMBaseURL name : String} {answer : Option String} {req : CreateRequest}

theorem nodup_createValues {run} : ((createValues lib run).map Prod.fst).Nodup := by
  unfold createValues
  split <;> simp

theorem nodup_filter_createValues {run} :
    (((createValues lib run).filter fun l => l.2 ≠ "").map Prod.fst).Nodup :=
  nodup_createValues.sublist (filter_sublist.map _)

theorem valid_filter_nonempty {values : List (String × String)} :
    (∀ l ∈ values.filter (fun l => l.2 ≠ ""), validLabelValue l.2) ↔
      ∀ l ∈ values, validLabelValue l.2 := by
  refine ⟨fun h l hl => ?_, fun h l hl => h l (mem_of_mem_filter hl)⟩
  by_cases hempty : l.2 = ""
  · rw [hempty]
    decide
  · exact h l (mem_filter.2 ⟨hl, by simpa using hempty⟩)

theorem admitted_createLabels {run} (h : run.labels.admitted) :
    (createLabels lib run).admitted ↔
      FitsLabel run.spec.project ∧ FitsLabel run.feature ∧
        ∀ repo ∈ run.spec.repos.head?, FitsLabel (nameFromURL lib repo.url) := by
  rw [createLabels, Labels.admitted_setAll h nodup_filter_createValues, valid_filter_nonempty,
    createValues]
  simp only [← valid_sanitizeLabelValue]
  cases run.spec.repos <;> simp

theorem admitted_newRun :
    (newRun lib liteLLMBaseURL answer req name).labels.admitted ↔
      FitsLabel req.spec.project ∧ FitsLabel req.feature ∧
        ∀ repo ∈ req.spec.repos.head?, FitsLabel (nameFromURL lib repo.url) := by
  rw [newRun, admitted_createLabels rfl]

end Create

end Uncworks
