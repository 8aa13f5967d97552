import Uncworks.Lifecycle.Planning
import Uncworks.Temporal.Verify

/-!
# What is read from outputs

`PlanRun` accepts a plan by the outputs of `openspec validate` and `openspec status`, and `VerifyRun`
looks for the verdict of the manage agent in the text blocks of its last message.
-/

namespace Uncworks

open List

/-! ## Plans -/

/-- The response in an answer, if the command succeeds and its output can be parsed. -/
def response? {α : Type} (parse : String → Except String α) (answer : ExecAnswer) : Option α :=
  match execInSidecar answer with
  | (out, none) => (parse out).toOption
  | (_, some _) => none

section Plan

variable (lib : Go.Lib) (json : Unmarshal) (pod : AgentPod PlanCall) (input : PlanRunInput)

def validateResponse? : Option OpenSpecValidateResponse :=
  response? (parseOpenSpecValidateResponse lib json) (pod.exec .validate "/workspace"
    s!"openspec validate {lib.quote input.agentRunName} --json")

def statusResponse? : Option OpenSpecStatusResponse :=
  response? (parseOpenSpecStatusResponse lib json) (pod.exec .status "/workspace"
    s!"openspec status --change {lib.quote input.agentRunName} --json")

structure Backed (val : OpenSpecValidateResponse) (status : OpenSpecStatusResponse) : Prop where
  item : val.items ≠ []
  valid : ∀ item ∈ val.items, item.valid
  done : ∀ id ∈ status.applyRequires, ∃ a ∈ status.artifacts, a.id = id ∧ a.status = "done"

end Plan

section Valid

variable {lib : Go.Lib} {json : Unmarshal} {pod : AgentPod PlanCall} {input : PlanRunInput}
  {output : PlanRunOutput} {val : OpenSpecValidateResponse} {status : OpenSpecStatusResponse}

theorem specsValid_iff : (planOutput lib json pod input).specsValid ↔ ∃ val status,
    validateResponse? lib json pod input = some val ∧ val.firstIssues? = none ∧
      statusResponse? lib json pod input = some status ∧ status.allArtifactsDone := by
  unfold planOutput validatePlan validateResponse? planArtifacts statusResponse? response?
  rcases execInSidecar (pod.exec .validate _ _) with ⟨out, _ | err⟩
  · rcases hval : parseOpenSpecValidateResponse lib json out with err | val
    · simp [hval, Except.toOption]
    rcases hissues : val.firstIssues? with _ | issues
    · rcases execInSidecar (pod.exec .status _ _) with ⟨out', _ | err⟩
      · rcases hstatus : parseOpenSpecStatusResponse lib json out' with err | status
        · simp [hval, hissues, hstatus, Except.toOption]
        · by_cases hdone : status.allArtifactsDone <;>
            simp [hval, hissues, hstatus, hdone, Except.toOption]
      · simp [hval, hissues]
    · simp [hval, hissues, Except.toOption]
  · simp

theorem backed_iff (hval : val.firstIssues? = none) (hstatus : status.allArtifactsDone) :
    Backed val status ↔ val.items ≠ [] ∧ (∀ item ∈ val.items.tail, item.valid) ∧
      ∀ id ∈ status.applyRequires, id ∈ status.artifacts.map (·.id) := by
  constructor
  · rintro ⟨hitem, hvalid, hdone⟩
    refine ⟨hitem, fun item h => hvalid item (mem_of_mem_tail h), fun id hid => ?_⟩
    obtain ⟨a, ha, rfl, -⟩ := hdone id hid
    exact mem_map_of_mem ha
  · rintro ⟨hitem, htail, hlisted⟩
    refine ⟨hitem, ?_, fun id hid => ?_⟩
    · obtain ⟨first, rest, hitems⟩ := exists_cons_of_ne_nil hitem
      rw [hitems] at htail ⊢
      refine forall_mem_cons.2 ⟨?_, htail⟩
      simpa [OpenSpecValidateResponse.firstIssues?, hitems] using hval
    · obtain ⟨a, ha, rfl⟩ := mem_map.1 (hlisted id hid)
      refine ⟨a, ha, rfl, ?_⟩
      by_contra hne
      have hmissing : status.isMissing a := by simp [OpenSpecStatusResponse.isMissing, hid, hne]
      simp [OpenSpecStatusResponse.allArtifactsDone] at hstatus
      exact absurd hmissing (by simp [hstatus a ha])

theorem planRun_backed_iff (h : Activities.planRun lib json pod input = .ok output) :
    ((output.specsValid → ∃ val status, validateResponse? lib json pod input = some val ∧
        statusResponse? lib json pod input = some status ∧ Backed val status) ∧
      ∀ r : OpenSpecStatusResponse, r.allArtifactsDone = false → r.missingArtifacts ≠ []) ↔
    ∀ val status, validateResponse? lib json pod input = some val → val.firstIssues? = none →
      statusResponse? lib json pod input = some status → status.allArtifactsDone →
      val.items ≠ [] ∧ (∀ item ∈ val.items.tail, item.valid) ∧
        ∀ id ∈ status.applyRequires, id ∈ status.artifacts.map (·.id) := by
  have hmissing : ∀ r : OpenSpecStatusResponse, r.allArtifactsDone = false →
      r.missingArtifacts ≠ [] := by
    intro r hr
    simp only [OpenSpecStatusResponse.allArtifactsDone, Bool.not_eq_false', any_eq_true] at hr
    obtain ⟨a, ha, hm⟩ := hr
    exact ne_nil_of_mem (mem_map_of_mem (mem_filter.2 ⟨ha, hm⟩))
  rw [and_iff_left hmissing, (Activities.planRun_ok h).2, specsValid_iff]
  constructor
  · intro hb val status hval hissues hstatus hdone
    obtain ⟨val', status', hval', hstatus', hbacked⟩ := hb ⟨val, status, hval, hissues, hstatus, hdone⟩
    obtain rfl : val = val' := Option.some.inj (hval.symm.trans hval')
    obtain rfl : status = status' := Option.some.inj (hstatus.symm.trans hstatus')
    exact (backed_iff hissues hdone).1 hbacked
  · rintro hcond ⟨val, status, hval, hissues, hstatus, hdone⟩
    exact ⟨val, status, hval, hstatus,
      (backed_iff hissues hdone).2 (hcond val status hval hissues hstatus hdone)⟩

theorem planRun_backed_sample : samplePlan.specsValid ∧ ∃ val status,
    validateResponse? sampleEnv.toLib sampleUnmarshal samplePlanPod samplePlanInput = some val ∧
      statusResponse? sampleEnv.toLib sampleUnmarshal samplePlanPod samplePlanInput = some status ∧
      Backed val status := by
  have hrun : Activities.planRun sampleEnv.toLib sampleUnmarshal samplePlanPod samplePlanInput =
      .ok samplePlan := rfl
  refine ⟨rfl, ((planRun_backed_iff hrun).2 ?_).1 rfl⟩
  intro val status hval _ hstatus _
  cases hval
  cases hstatus
  exact ⟨by simp, by simp, by simp⟩

/-- Nothing was validated. -/
theorem plan_without_items : ∃ json : Unmarshal,
    Activities.planRun sampleEnv.toLib json samplePlanPod samplePlanInput = .ok samplePlan ∧
      samplePlan.specsValid ∧
      validateResponse? sampleEnv.toLib json samplePlanPod samplePlanInput = some { items := [] } :=
  ⟨{ sampleUnmarshal with validate := fun _ => .ok { items := [] } }, rfl, rfl, rfl⟩

end Valid

/-! ## Verdicts -/

def isJsonSpace (c : Char) : Bool := c = ' ' || c = '\t' || c = '\n' || c = '\r'

/-- How `json.Unmarshal` treats what stands behind an object. -/
structure Unmarshal.Scans (json : Unmarshal) : Prop where
  trailing : ∀ text suf : String, text.toList.head? = some '\x7b' → json.error? text = none →
    (json.error? (text ++ suf) = none ↔ suf.toList.all isJsonSpace)
  verdict : ∀ text suf : String, text.toList.head? = some '\x7b' → json.error? text = none →
    suf.toList.all isJsonSpace → json.verdict (text ++ suf) = json.verdict text

/-- The content of a line that is a `message_end` of an assistant. -/
def assistantContent? (json : Unmarshal) (line : String) : Option String :=
  match json.event (Go.trimSpace line) with
  | .error _ => none
  | .ok event => event.message.bind fun message =>
    if event.type ≠ "message_end" ∨ message.role ≠ "assistant" then none else some message.content

/-- The last assistant message of a log has a text block with a verdict. -/
structure LastVerdict (json : Unmarshal) (log : String) where
  before : List String
  line : String
  after : List String
  lines : Go.split '\n' log = before ++ line :: after
  nonblank : Go.trimSpace line ≠ ""
  last : ∀ l ∈ after, assistantContent? json l = none
  content : String
  assistant : assistantContent? json line = some content
  earlier : List ContentBlock
  pre : String
  text : String
  suf : String
  later : List ContentBlock
  blocks : json.content content = .ok (earlier ++ ⟨"text", pre ++ (text ++ suf)⟩ :: later)
  noBrace : '\x7b' ∉ pre.toList
  brace : text.toList.head? = some '\x7b'
  json_text : json.error? text = none
  verdict : LLMVerdict
  denotes : json.verdict text = .ok verdict
  criteria : verdict.criteria ≠ []

section Verdict

variable {lib : Go.Lib} {json : Unmarshal} {log line : String}

theorem lineVerdict?_eq (h : Go.trimSpace line ≠ "") : lineVerdict? lib json line =
    (assistantContent? json line).bind fun content => match json.content content with
      | .error _ => none
      | .ok blocks => blocks.findSome? (blockVerdict? lib json) := by
  unfold lineVerdict? assistantContent?
  rw [if_neg h]
  rcases json.event (Go.trimSpace line) with err | ⟨type, _ | message⟩
  · rfl
  · rfl
  · dsimp only [Option.bind_some]
    split_ifs <;> rfl

theorem lineVerdict?_eq_none (h : assistantContent? json line = none) :
    lineVerdict? lib json line = none := by
  by_cases hblank : Go.trimSpace line = ""
  · rw [lineVerdict?, if_pos hblank]
  · rw [lineVerdict?_eq hblank, h]
    rfl

namespace LastVerdict

variable (m : LastVerdict json log)

theorem blockVerdict?_eq (hjson : json.Scans) :
    blockVerdict? lib json ⟨"text", m.pre ++ (m.text ++ m.suf)⟩ =
      if m.suf.toList.all isJsonSpace then some m.verdict else none := by
  have hdrop : (m.pre ++ (m.text ++ m.suf)).toList.dropWhile (· != '\x7b') = (m.text ++ m.suf).toList := by
    obtain ⟨rest, hrest⟩ := head?_eq_some_iff.1 m.brace
    rw [String.toList_append, dropWhile_append_of_pos, String.toList_append, hrest]
    · rfl
    · intro c hc
      exact bne_iff_ne.2 fun heq => m.noBrace (heq ▸ hc)
  have hne : m.text ++ m.suf ≠ "" := by
    intro heq
    have hnil : m.text.toList ++ m.suf.toList = [] := by rw [← String.toList_append, heq]; rfl
    simpa [(append_eq_nil_iff.1 hnil).1] using m.brace
  unfold blockVerdict? parseOpenSpecJSON
  simp only [ne_eq, not_true_eq_false, if_false, hdrop, String.ofList_toList, hne]
  have htrailing := hjson.trailing m.text m.suf m.brace m.json_text
  split_ifs with hspace
  · rw [htrailing.2 hspace]
    simp [hjson.verdict _ _ m.brace m.json_text hspace, m.denotes, m.criteria]
  · cases herr : json.error? (m.text ++ m.suf) with
    | none => exact absurd (htrailing.1 herr) hspace
    | some err => rfl

/-- What the search comes to if the block is passed over. -/
def beyond (lib : Go.Lib) : Option LLMVerdict :=
  (m.later.findSome? (blockVerdict? lib json)).or
    (m.before.reverse.findSome? (lineVerdict? lib json))

theorem parseLLMVerdict_eq (hjson : json.Scans) : parseLLMVerdict lib json log =
    (m.earlier.findSome? (blockVerdict? lib json)).or
      (if m.suf.toList.all isJsonSpace then some m.verdict else m.beyond lib) := by
  have hafter : m.after.reverse.findSome? (lineVerdict? lib json) = none :=
    findSome?_eq_none_iff.2 fun l hl => lineVerdict?_eq_none (m.last l (mem_reverse.1 hl))
  rw [parseLLMVerdict, m.lines, reverse_append, reverse_cons, append_assoc, singleton_append,
    findSome?_append, hafter, Option.none_or, findSome?_cons, lineVerdict?_eq m.nonblank,
    m.assistant, Option.bind_some, m.blocks]
  simp only [findSome?_append, findSome?_cons, m.blockVerdict?_eq hjson, beyond]
  cases m.earlier.findSome? (blockVerdict? lib json) with
  | some w => rfl
  | none =>
    split_ifs
    · rfl
    · cases m.later.findSome? (blockVerdict? lib json) <;> rfl

end LastVerdict

theorem parseLLMVerdict_iff (hjson : json.Scans) (m : LastVerdict json log) :
    parseLLMVerdict lib json log = some m.verdict ↔
      match m.earlier.findSome? (blockVerdict? lib json) with
      | some w => w = m.verdict
      | none => m.suf.toList.all isJsonSpace ∨ m.beyond lib = some m.verdict := by
  rw [m.parseLLMVerdict_eq hjson]
  cases m.earlier.findSome? (blockVerdict? lib json) with
  | some w => simp
  | none => by_cases h : m.suf.toList.all isJsonSpace <;> simp [h]

end Verdict

/-! ### A sample message -/

/-- The text without white space; the sample decoder below reads texts up to that. -/
def compact (s : String) : String := String.ofList (s.toList.filter fun c => !isJsonSpace c)

def fencedVerdict (suf : String) : Unmarshal :=
  { sampleUnmarshal with
    error? := fun text => if compact text = sampleVerdict then none else some "invalid character"
    event := fun _ => .ok { type := "message_end", message := some { role := "assistant", content := "" } }
    content := fun _ => .ok [⟨"text", "" ++ (sampleVerdict ++ suf)⟩]
    verdict := fun text => sampleUnmarshal.verdict (compact text) }

theorem compact_append (s suf : String) : compact (s ++ suf) = compact s ++ compact suf := by
  rw [compact, String.toList_append, filter_append, String.ofList_append]
  rfl

theorem compact_eq_empty {s} : compact s = "" ↔ s.toList.all isJsonSpace := by
  simp [compact]

theorem error?_fencedVerdict {suf text} :
    (fencedVerdict suf).error? text = none ↔ compact text = sampleVerdict := by
  simp [fencedVerdict]

theorem scans_fencedVerdict (suf : String) : (fencedVerdict suf).Scans where
  trailing text suf' _ htext := by
    rw [error?_fencedVerdict] at htext
    rw [error?_fencedVerdict, compact_append, htext, ← compact_eq_empty]
    exact String.append_eq_left_iff
  verdict text suf' _ _ h := by
    simp [fencedVerdict, compact_append, compact_eq_empty.2 h]

def fencedMessage (suf : String) : LastVerdict (fencedVerdict suf) "x" where
  before := []
  line := "x"
  after := []
  lines := by decide
  nonblank := by decide
  last _ h := nomatch h
  content := ""
  assistant := rfl
  earlier := []
  pre := ""
  text := sampleVerdict
  suf := suf
  later := []
  blocks := rfl
  noBrace := by decide
  brace := by decide
  json_text := error?_fencedVerdict.2 (by decide)
  verdict := { pass := true, criteria := [{ scenario := "", pass := true }] }
  denotes := rfl
  criteria := by simp

theorem parseLLMVerdict_unfenced : parseLLMVerdict sampleEnv.toLib (fencedVerdict "\n") "x" =
    some (fencedMessage "\n").verdict :=
  (parseLLMVerdict_iff (scans_fencedVerdict _) (fencedMessage "\n")).2 (.inl (by decide))

theorem parseLLMVerdict_fenced :
    parseLLMVerdict sampleEnv.toLib (fencedVerdict "\n\x60\x60\x60") "x" = none := by
  rfl

end Uncworks
