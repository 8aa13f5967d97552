import Uncworks.Knowledge.Search
import Uncworks.Shell.Commands
import Uncworks.Temporal.OpenSpec

/-!
# Context of past work

`HydrateContext` looks for past work that is related to the prompt of a run, and lets the sidecar
of the pod write it to a file that the agent reads.  The text is cut after 32000 bytes, which may
be inside of a character.

Logging is left out, except that the arguments of a log call are evaluated.
-/

namespace Uncworks

open Shell List

open Go (utf8 ValidUtf8)

/-! ## The file -/

section Format

variable {V R : Type} (format2 : R → String) (codeResults : List (Found (CodeChunk V R) R))
  (traceResults : List (Found (TraceChunk V) R))

def codeTitle (r : Found (CodeChunk V R) R) : String :=
  s!"### {r.row.filePath} (run: {r.row.agentRunID}, similarity: {format2 r.similarity})\n\n"

def codeSection (r : Found (CodeChunk V R) R) : String :=
  codeTitle format2 r ++
    if r.row.language ≠ "" then s!"```{r.row.language}\n{r.row.chunkText}\n```\n\n"
    else s!"```\n{r.row.chunkText}\n```\n\n"

def traceSection (r : Found (TraceChunk V) R) : String :=
  s!"### Run: {r.row.agentRunID} (type: {r.row.chunkType}, similarity: {format2 r.similarity})\n\n" ++
    (r.row.chunkText ++ "\n\n")

def contextIntro : String :=
  "# Past Work Context\n\n" ++
  "This file contains relevant past work from previous agent runs.\n" ++
  "Use this context to avoid repeating past mistakes and build on previous solutions.\n\n"

def codeHeading : String := "## Relevant Code Changes\n\n"

def traceHeading : String := "## Relevant Logs & Traces\n\n"

def contextFileText : String :=
  contextIntro ++
  ((if codeResults ≠ [] then codeHeading ++ String.join (codeResults.map (codeSection format2))
    else "") ++
  (if traceResults ≠ [] then traceHeading ++ String.join (traceResults.map (traceSection format2))
    else ""))

def maxChars : ℕ := 8000 * 4

def truncationNotice : String := "\n\n... (truncated)\n"

def formatContextFile : List UInt8 :=
  let b := utf8 (contextFileText format2 codeResults traceResults)
  if maxChars < b.length then b.take maxChars ++ utf8 truncationNotice else b

end Format

def shellescape (s : List UInt8) : List UInt8 :=
  utf8 "'" ++ Go.replaceAllByte quote (utf8 "'\\''") s ++ utf8 "'"

/-! ## Commands in the pod -/

/-- What becomes of a request for the sidecar: what it answers, and what a command that does not
succeed leaves behind. -/
structure SidecarCall where
  answer : ExecAnswer
  leaves : Files → Files := id

/-- `ExecCommand`, called through the generated client.  A command that is not valid UTF-8 cannot be
encoded; one with a zero byte cannot be passed to `bash`. -/
def SidecarCall.exec (call : SidecarCall) (command : List UInt8) (files : Files) :
    ExecAnswer × Files :=
  if ¬ ValidUtf8 command then (.error "internal: string field contains invalid UTF-8", files)
  else
    match call.answer with
    | .error err => (.error err, call.leaves files)
    | .ok resp =>
      if 0 ∈ command then (.ok { exitCode := -1 }, files)
      else if resp.exitCode = 0 then (.ok resp, (run command files).getD (call.leaves files))
      else (.ok resp, call.leaves files)

def succeeded : ExecAnswer → Bool
  | .ok resp => resp.exitCode = 0
  | .error _ => false

/-! ## `HydrateContext` -/

/-- What `HydrateContext` depends on.  The searches return rows, also if they fail. -/
structure HydrateCalls (V R : Type) where
  configured : Bool := true
  pgvectorReady : Bool := true
  embed : String → Except String V
  searchCodeChunks : V → String → ℤ → List (Found (CodeChunk V R) R)
  searchTraceChunks : V → String → ℤ → List (Found (TraceChunk V) R)
  format2 : R → String
  mkdir : SidecarCall
  write : SidecarCall

/-- How `HydrateContext` ends; `panicked` is a nil dereference. -/
inductive HydrateOutcome
  | panicked
  | failed (err : String)
  | returned (contextWritten : Bool)
  deriving DecidableEq

section Hydrate

variable {V R : Type} (c : HydrateCalls V R) (input : HydrateContextInput) (files : Files)

def findContext :
    Except HydrateOutcome (List (Found (CodeChunk V R) R) × List (Found (TraceChunk V) R)) :=
  if !c.configured || !c.pgvectorReady || input.podIP = "" then .error (.returned false)
  else
    match c.embed input.prompt with
    | .error err => .error (.failed s!"embed prompt for context hydration: {err}")
    | .ok queryVec =>
      let topK := if input.agentType = "senior" ∨ input.agentType = "orchestrator" then 25 else 10
      let codeResults := c.searchCodeChunks queryVec input.repoURL topK
      let traceResults := c.searchTraceChunks queryVec input.repoURL topK
      if codeResults.length = 0 ∧ traceResults.length = 0 then .error (.returned false)
      else .ok (codeResults, traceResults)

def contextDir : String := input.workspacePath ++ "/.aot/context"

def contextPath : String := contextDir input ++ "/past-work.md"

def mkdirCmd : List UInt8 := utf8 ("mkdir -p " ++ contextDir input)

def writeCmd (contextContent : List UInt8) : List UInt8 :=
  utf8 "printf '%s' " ++ (shellescape contextContent ++ (utf8 " > " ++ utf8 (contextPath input)))

def writeContext (contextContent : List UInt8) : HydrateOutcome × Files :=
  let mkdir := c.mkdir.exec (mkdirCmd input) files
  if !succeeded mkdir.1 then (.returned false, mkdir.2)
  else
    let write := c.write.exec (writeCmd input contextContent) mkdir.2
    match write.1 with
    -- the standard error of the response is logged, and there is no response
    | .error _ => (.panicked, write.2)
    | .ok writeResp => (.returned (writeResp.exitCode = 0), write.2)

def hydrateContext : HydrateOutcome × Files :=
  match findContext c input with
  | .error out => (out, files)
  | .ok (codeResults, traceResults) =>
    writeContext c input files (formatContextFile c.format2 codeResults traceResults)

/-- `HydrateContext` does not panic, and sends valid UTF-8 that is not too long and, if the commands
succeed, is what is in the file. -/
structure ContextSafe : Prop where
  returns : (hydrateContext c input files).1 ≠ .panicked
  content : ∀ codeResults traceResults, findContext c input = .ok (codeResults, traceResults) →
    succeeded (c.mkdir.exec (mkdirCmd input) files).1 →
    ValidUtf8 (formatContextFile c.format2 codeResults traceResults) ∧
      (formatContextFile c.format2 codeResults traceResults).length ≤
        maxChars + truncationNotice.utf8ByteSize
  file : ∀ codeResults traceResults, findContext c input = .ok (codeResults, traceResults) →
    succeeded (c.mkdir.exec (mkdirCmd input) files).1 →
    succeeded (c.write.exec (writeCmd input (formatContextFile c.format2 codeResults traceResults))
      (c.mkdir.exec (mkdirCmd input) files).2).1 →
    (hydrateContext c input files).2 (utf8 (contextPath input)) =
      some (formatContextFile c.format2 codeResults traceResults)

def FitsFile (text : String) : Prop :=
  text.utf8ByteSize ≤ maxChars ∨ ∃ a b, text = a ++ b ∧ a.utf8ByteSize = maxChars

end Hydrate

/-! ## Content -/

section Content

variable {V R : Type} {format2 : R → String} {codeResults : List (Found (CodeChunk V R) R)}
  {traceResults : List (Found (TraceChunk V) R)}

theorem validUtf8_formatContextFile :
    ValidUtf8 (formatContextFile format2 codeResults traceResults) ↔
      FitsFile (contextFileText format2 codeResults traceResults) := by
  simp only [formatContextFile, Go.length_utf8, FitsFile]
  split_ifs with hlong
  · rw [Go.validUtf8_append_text, Go.validUtf8_take_iff hlong.le, or_iff_right (not_le.2 hlong)]
  · exact iff_of_true (Go.validUtf8_utf8 _) (.inl (not_lt.1 hlong))

theorem not_fitsFile {a b ch} (hlow : a.utf8ByteSize < maxChars)
    (hhigh : maxChars < a.utf8ByteSize + ch.utf8Size) :
    ¬ FitsFile (a ++ (String.singleton ch ++ b)) := by
  have hsize : maxChars < (a ++ (String.singleton ch ++ b)).utf8ByteSize := by
    rw [String.utf8ByteSize_append, String.utf8ByteSize_append, String.utf8ByteSize_singleton]
    omega
  rw [FitsFile, or_iff_right (not_le.2 hsize), ← Go.validUtf8_take_iff hsize.le]
  exact Go.not_validUtf8_take hlow hhigh

theorem length_formatContextFile :
    (formatContextFile format2 codeResults traceResults).length ≤
      maxChars + truncationNotice.utf8ByteSize := by
  simp only [formatContextFile]
  split_ifs with hlong
  · rw [length_append]
    exact Nat.add_le_add_right (length_take_le _ _) _
  · omega

theorem validUtf8_writeCmd (input : HydrateContextInput) (content : List UInt8) :
    ValidUtf8 (writeCmd input content) ↔ ValidUtf8 content := by
  have hquote : utf8 "'" = [quote] := by decide
  rw [writeCmd, shellescape, Go.validUtf8_text_append, ← Go.utf8_append, Go.validUtf8_append_text,
    Go.validUtf8_append_text, Go.validUtf8_text_append, Go.validUtf8_replaceAllByte hquote (by decide)]

end Content

/-! ## Calls -/

section Calls

variable {V R : Type} {c : HydrateCalls V R} {input : HydrateContextInput} {files : Files}
  {call : SidecarCall} {command content : List UInt8}

theorem SidecarCall.isOk_exec (call : SidecarCall) (command : List UInt8) (files : Files) :
    (call.exec command files).1.isOk ↔ ValidUtf8 command ∧ call.answer.isOk := by
  unfold exec
  by_cases hvalid : ValidUtf8 command
  · rw [if_neg (not_not.2 hvalid), and_iff_right hvalid]
    cases call.answer with
    | error err => rfl
    | ok resp =>
      simp only
      split_ifs <;> exact iff_of_true rfl rfl
  · rw [if_pos hvalid]
    exact iff_of_false (by simp [Except.toBool]) fun h => hvalid h.1

theorem SidecarCall.succeeded_exec (h : succeeded (call.exec command files).1) :
    succeeded call.answer ∧ ValidUtf8 command ∧
      (call.exec command files).2 = (run command files).getD (call.leaves files) := by
  unfold exec at h ⊢
  by_cases hvalid : ValidUtf8 command
  · rw [if_neg (not_not.2 hvalid)] at h ⊢
    cases hanswer : call.answer with
    | error err => simp [hanswer, succeeded] at h
    | ok resp =>
      by_cases hzero : 0 ∈ command
      · simp [hanswer, hzero, succeeded] at h
      · by_cases hexit : resp.exitCode = 0
        · simp [hzero, hexit, succeeded, hvalid]
        · simp [hanswer, hzero, hexit, succeeded] at h
  · rw [if_pos hvalid] at h
    simp [succeeded] at h

theorem SidecarCall.succeeded_exec_text {text} (hzero : 0 ∉ utf8 text) :
    succeeded (call.exec (utf8 text) files).1 ↔ succeeded call.answer := by
  refine ⟨fun h => (succeeded_exec h).1, fun h => ?_⟩
  unfold exec
  rw [if_neg (not_not.2 (Go.validUtf8_utf8 text))]
  cases hanswer : call.answer with
  | error err => simp [hanswer, succeeded] at h
  | ok resp =>
    have hexit : resp.exitCode = 0 := by simpa [hanswer, succeeded] using h
    simp [hzero, hexit, succeeded]

theorem writeContext_panicked :
    (writeContext c input files content).1 = .panicked ↔
      succeeded (c.mkdir.exec (mkdirCmd input) files).1 ∧
        ¬ (ValidUtf8 content ∧ c.write.answer.isOk) := by
  rw [← validUtf8_writeCmd input,
    ← SidecarCall.isOk_exec c.write _ (c.mkdir.exec (mkdirCmd input) files).2, writeContext]
  by_cases hmkdir : succeeded (c.mkdir.exec (mkdirCmd input) files).1
  · simp only [hmkdir, Bool.not_true, Bool.false_eq_true, if_false, true_and]
    cases (c.write.exec (writeCmd input content) (c.mkdir.exec (mkdirCmd input) files).2).1 <;>
      simp [Except.toBool]
  · simp [hmkdir]

theorem findContext_ne_panicked {out} (h : findContext c input = .error out) : out ≠ .panicked := by
  unfold findContext at h
  split at h
  · cases h
    nofun
  · split at h
    · cases h
      nofun
    · simp only at h
      split_ifs at h
      all_goals
        cases h
        nofun

theorem hydrateContext_eq {codeResults traceResults}
    (h : findContext c input = .ok (codeResults, traceResults)) :
    hydrateContext c input files =
      writeContext c input files (formatContextFile c.format2 codeResults traceResults) := by
  rw [hydrateContext, h]

theorem contextPath_ne_nil : utf8 (contextPath input) ≠ [] := by
  rw [ne_eq, Go.utf8_eq_nil_iff, ← String.utf8ByteSize_eq_zero_iff, contextPath,
    String.utf8ByteSize_append]
  have hname : "/past-work.md".utf8ByteSize ≠ 0 := by decide
  omega

section Plain

variable (hpath : ∀ b ∈ utf8 input.workspacePath, isPlain b)
include hpath

theorem plain_contextPath : ∀ b ∈ utf8 (contextPath input), isPlain b := by
  rw [contextPath, contextDir, Go.utf8_append, Go.utf8_append, forall_mem_append,
    forall_mem_append]
  exact ⟨⟨hpath, all_eq_true.1 (by decide)⟩, all_eq_true.1 (by decide)⟩

theorem succeeded_mkdir :
    succeeded (c.mkdir.exec (mkdirCmd input) files).1 ↔ succeeded c.mkdir.answer := by
  refine SidecarCall.succeeded_exec_text fun hzero => ?_
  rw [contextDir, Go.utf8_append, Go.utf8_append, mem_append, mem_append] at hzero
  obtain hzero | hzero | hzero := hzero
  · exact absurd hzero (by decide)
  · exact absurd (hpath 0 hzero) (by decide)
  · exact absurd hzero (by decide)

theorem writeContext_file (hmkdir : succeeded (c.mkdir.exec (mkdirCmd input) files).1)
    (hwrite : succeeded (c.write.exec (writeCmd input content)
      (c.mkdir.exec (mkdirCmd input) files).2).1) :
    (writeContext c input files content).2 (utf8 (contextPath input)) = some content := by
  have hfiles : (writeContext c input files content).2 =
      (c.write.exec (writeCmd input content) (c.mkdir.exec (mkdirCmd input) files).2).2 := by
    simp only [writeContext, hmkdir, Bool.not_true, Bool.false_eq_true, if_false]
    split <;> rfl
  have hrun : run (writeCmd input content) (c.mkdir.exec (mkdirCmd input) files).2 =
      some (Function.update (c.mkdir.exec (mkdirCmd input) files).2 (utf8 (contextPath input))
        (some content)) :=
    run_printf (plain_contextPath hpath) contextPath_ne_nil content _
  rw [hfiles, (SidecarCall.succeeded_exec hwrite).2.2, hrun, Option.getD_some, Function.update_self]

end Plain

/-- `HydrateContext` does what it should exactly if, whenever it gets to write, the sidecar returns
a response and the text is not cut inside of a character. -/
theorem contextSafe_iff (c : HydrateCalls V R) (input : HydrateContextInput) (files : Shell.Files)
    (hpath : ∀ b ∈ utf8 input.workspacePath, Shell.isPlain b) :
    ContextSafe c input files ↔
      ∀ codeResults traceResults, findContext c input = .ok (codeResults, traceResults) →
        succeeded c.mkdir.answer →
        c.write.answer.isOk ∧ FitsFile (contextFileText c.format2 codeResults traceResults) := by
  constructor
  · intro hsafe codeResults traceResults hfind hmkdir
    have hreturns := hsafe.returns
    rw [hydrateContext_eq hfind, ne_eq, writeContext_panicked, succeeded_mkdir hpath, not_and,
      not_not] at hreturns
    obtain ⟨hvalid, hok⟩ := hreturns hmkdir
    exact ⟨hok, validUtf8_formatContextFile.1 hvalid⟩
  · intro h
    refine ⟨?_, fun codeResults traceResults hfind hmkdir => ?_,
      fun codeResults traceResults hfind hmkdir hwrite => ?_⟩
    · cases hfind : findContext c input with
      | error out =>
        rw [hydrateContext, hfind]
        exact findContext_ne_panicked hfind
      | ok found =>
        rw [hydrateContext_eq hfind, ne_eq, writeContext_panicked, succeeded_mkdir hpath, not_and,
          not_not]
        intro hmkdir
        have hboth := h _ _ hfind hmkdir
        exact ⟨validUtf8_formatContextFile.2 hboth.2, hboth.1⟩
    · rw [succeeded_mkdir hpath] at hmkdir
      exact ⟨validUtf8_formatContextFile.2 (h _ _ hfind hmkdir).2, length_formatContextFile⟩
    · rw [hydrateContext_eq hfind]
      exact writeContext_file hpath hmkdir hwrite

end Calls

/-! ## A panic -/

def sampleFound (chunkText : String) : Found (CodeChunk Unit ℚ) ℚ where
  row :=
    { id := "c1", agentRunID := "ar-k3f9qz", chunkText, embedding := (), filePath := "main.go",
      boost := 1 }
  similarity := 4 / 5

def sampleHydrate (chunkText : String) (write : ExecAnswer) : HydrateCalls Unit ℚ where
  embed _ := .ok ()
  searchCodeChunks _ _ _ := [sampleFound chunkText]
  searchTraceChunks _ _ _ := []
  format2 _ := "0.80"
  mkdir := { answer := .ok {} }
  write := { answer := write }

def sampleHydrateInput : HydrateContextInput where
  agentRunID := "ar-k3f9qz"
  workspacePath := "/workspace"
  prompt := "Fix the login"
  repoURL := ""
  agentType := ""
  podIP := "10.0.0.7"

theorem findContext_sample (chunkText : String) (write : ExecAnswer) :
    findContext (sampleHydrate chunkText write) sampleHydrateInput =
      .ok ([sampleFound chunkText], []) := rfl

theorem contextSafe_sample :
    ContextSafe (sampleHydrate "func main()" (.ok {})) sampleHydrateInput (fun _ => none) := by
  refine (contextSafe_iff _ _ _ (all_eq_true.1 (by decide))).2
    fun codeResults traceResults hfind _ => ⟨rfl, .inl ?_⟩
  cases hfind
  decide +kernel

theorem contextFileText_singleton {V R : Type} {format2} {r : Found (CodeChunk V R) R}
    (h : r.row.language = "") :
    contextFileText format2 [r] [] = contextIntro ++ (codeHeading ++
      (codeTitle format2 r ++ ("```\n" ++ (r.row.chunkText ++ "\n```\n\n")))) := by
  have hsection : codeSection format2 r =
      codeTitle format2 r ++ ("```\n" ++ (r.row.chunkText ++ "\n```\n\n")) := by
    rw [codeSection, h]
    exact congrArg _ String.append_assoc
  have hjoin : String.join [codeSection format2 r] = codeSection format2 r := by
    rw [String.join_cons, String.join_nil, String.append_empty]
  rw [contextFileText, if_pos (cons_ne_nil _ _), if_neg (not_not.2 rfl), map_singleton, hjoin,
    String.append_empty, hsection]

def sampleHead : String :=
  contextIntro ++ (codeHeading ++ (codeTitle (fun _ => "0.80") (sampleFound "") ++ "```\n"))

theorem contextFileText_sample (before : String) (last : Char) :
    contextFileText (fun _ => "0.80") [sampleFound (before ++ String.singleton last)] [] =
      sampleHead ++ before ++ (String.singleton last ++ "\n```\n\n") := by
  have htitle : codeTitle (fun _ => "0.80") (sampleFound (before ++ String.singleton last)) =
      codeTitle (fun _ => "0.80") (sampleFound "") := rfl
  have hchunk : (sampleFound (before ++ String.singleton last)).row.chunkText =
      before ++ String.singleton last := rfl
  rw [contextFileText_singleton rfl, htitle, hchunk, sampleHead]
  simp only [String.append_assoc]

def accents (n : ℕ) : String := String.ofList (replicate n 'é')

theorem utf8ByteSize_accents (n : ℕ) : (accents n).utf8ByteSize = n * 2 := by
  have hchar : 'é'.utf8Size = 2 := by decide
  rw [accents, Go.utf8ByteSize_eq_sum, String.toList_ofList, map_replicate,
    sum_replicate_nat, hchar]

/-- There is no response to read if the sidecar cannot be reached, or if the text is cut inside of
its last letter. -/
theorem hydrateContext_panics :
    (hydrateContext (sampleHydrate "func main()" (.error "unavailable: connection refused"))
      sampleHydrateInput fun _ => none).1 = .panicked ∧
    (hydrateContext (sampleHydrate (accents 15876 ++ String.singleton 'é') (.ok {})) sampleHydrateInput
      fun _ => none).1 = .panicked := by
  have hpanics : ∀ chunkText write,
      ¬ (FitsFile (contextFileText (fun _ => "0.80") [sampleFound chunkText] []) ∧ write.isOk) →
      (hydrateContext (sampleHydrate chunkText write) sampleHydrateInput fun _ => none).1 =
        .panicked := by
    intro chunkText write h
    rw [hydrateContext_eq (findContext_sample chunkText write), writeContext_panicked,
      validUtf8_formatContextFile]
    exact ⟨(succeeded_mkdir (all_eq_true.1 (by decide))).2 rfl, h⟩
  refine ⟨hpanics _ _ fun h => absurd h.2 (by decide), hpanics _ _ fun h => ?_⟩
  have hsize : (sampleHead ++ accents 15876).utf8ByteSize = 31999 := by
    have hhead : sampleHead.utf8ByteSize = 247 := by decide +kernel
    rw [String.utf8ByteSize_append, utf8ByteSize_accents, hhead]
  rw [contextFileText_sample] at h
  exact not_fitsFile (by rw [hsize]; decide) (by rw [hsize]; decide) h.1

end Uncworks
