import Uncworks.Go.Strings
import Uncworks.Machine.Runs

/-!
# The reader of an agent's output

`startReaders` scans the standard output of an agent line by line.  It kills the agent when the
signature of its tool calls, the name of the first call of a message and the length of its input, is
the same for five messages in a row, and appends every other line to `agent.jsonl`.
-/

namespace Uncworks

open List

/-! ## Tool calls -/

structure ToolBlock where
  type : String
  name : String
  /-- Text of JSON. -/
  input : String

/-- `json.Unmarshal` of an event, for its type and the content of its message, and of a content. -/
structure EventLib where
  event : String → Option (String × Option String)
  blocks : String → Option (List ToolBlock)

section Detection

variable (lib : EventLib)

def eventBlocks (line : String) : List ToolBlock :=
  match lib.event line with
  | some ("message_end", some content) => (lib.blocks content).getD []
  | _ => []

def extractToolCallSignature (line : String) : String :=
  match (eventBlocks lib line).find? (·.type = "tool_use") with
  | some b => b.name ++ ":" ++ toString b.input.utf8ByteSize
  | none => ""

def maxRepeatedToolCalls : ℕ := 5

structure LoopDetection where
  lastToolSig : String := ""
  repeatCount : ℕ := 0
  deriving DecidableEq

/-- `none` if the agent is killed. -/
def LoopDetection.note (d : LoopDetection) (sig : String) : Option LoopDetection :=
  if sig = "" then some d
  else if sig = d.lastToolSig then
    if maxRepeatedToolCalls ≤ d.repeatCount + 1 then none
    else some { d with repeatCount := d.repeatCount + 1 }
  else some { lastToolSig := sig, repeatCount := 1 }

def detect (lines : List String) : Option LoopDetection :=
  lines.foldlM (fun d line => d.note (extractToolCallSignature lib line)) {}

end Detection

def signature : List (String × String) → String
  | [] => ""
  | (name, input) :: _ => name ++ ":" ++ toString input.utf8ByteSize

section Repeated

variable {lib : EventLib} {d : LoopDetection}

end Repeated

def callContent (input : String) : String :=
  "[\x7b\"type\":\"tool_use\",\"name\":\"bash\",\"input\":" ++ input ++ "\x7d]"

def callLine (input : String) : String :=
  "\x7b\"type\":\"message_end\",\"message\":\x7b\"content\":" ++ callContent input ++ "\x7d\x7d"

def callInputs : List String := ["\"ls 1\"", "\"ls 2\"", "\"ls 3\"", "\"ls 4\"", "\"ls 5\""]

def callEvents : EventLib where
  event line := (callInputs.find? (callLine · = line)).map fun input =>
    ("message_end", some (callContent input))
  blocks content := (callInputs.find? (callContent · = content)).map fun input =>
    [⟨"tool_use", "bash", input⟩]

/-- The lines that are appended to `agent.jsonl`. -/
def record (lib : EventLib) : LoopDetection → List String → List String
  | _, [] => []
  | d, line :: lines =>
    match d.note (extractToolCallSignature lib line) with
    | some d' => line :: record lib d' lines
    | none => []

def agentJsonl (lib : EventLib) (read : List Char) : List String :=
  record lib {} (Go.scanLines (256 * 1024) (String.ofList read)).tokens

/-- What the agent has written waits in the pipe until the scanner reads it. -/
structure StdoutPipe where
  written : List Char := []
  pipe : List Char := []
  read : List Char := []
  exited : Bool := false
  closed : Bool := false

inductive StdoutEvent
  | write (text : String)
  | read (n : ℕ)
  | exit
  /-- `cmd.Wait` sees that the agent has exited, and closes the pipe. -/
  | wait

def StdoutPipe.step (s : StdoutPipe) : StdoutEvent → Option StdoutPipe
  | .write text => if s.exited then none else
      some { s with written := s.written ++ text.toList, pipe := s.pipe ++ text.toList }
  | .read n => if s.closed then none else
      some { s with read := s.read ++ s.pipe.take n, pipe := s.pipe.drop n }
  | .exit => some { s with exited := true }
  | .wait => if s.exited then some { s with pipe := [], closed := true } else none

def completeLines (text : List Char) : List String :=
  (Go.split '\n' (String.ofList text)).dropLast

section Recording

variable {lib : EventLib} {s : StdoutPipe}

theorem prefix_record {d lines tokens} : lines <+: record lib d tokens ↔ lines <+: tokens ∧
    lines.foldlM (fun d line => d.note (extractToolCallSignature lib line)) d ≠ none := by
  induction tokens generalizing lines d with
  | nil => cases lines <;> simp [record]
  | cons token tokens ih =>
    cases lines with
    | nil => simp
    | cons line lines =>
      rw [record, foldlM_cons, cons_prefix_cons, and_assoc]
      cases hnote : d.note (extractToolCallSignature lib token) with
      | none =>
        simp only [prefix_nil, reduceCtorEq, false_iff]
        rintro ⟨rfl, -, h⟩
        simp [hnote] at h
      | some d' =>
        rw [cons_prefix_cons, ih]
        refine and_congr_right ?_
        rintro rfl
        simp [hnote]

/-- The lines of a text that is cut off are the lines of the text, the last one cut off. -/
theorem prefix_of_splitOn {c : Char} {text text'} (h : text <+: text') {i : ℕ} {line line'}
    (hline : (text.splitOn c)[i]? = some line) (hline' : (text'.splitOn c)[i]? = some line') :
    line <+: line' := by
  induction text generalizing text' i line line' with
  | nil => cases i <;> simp_all
  | cons a text ih =>
    obtain ⟨rest, rfl⟩ := h
    have ih := @ih (text ++ rest) (prefix_append _ _)
    rw [cons_append] at hline'
    unfold splitOn at hline hline' ih
    rw [splitOnP_cons_eq_if_modifyHead] at hline hline'
    split_ifs at hline hline'
    · cases i with
      | zero => simp_all
      | succ i => exact ih hline hline'
    · cases i <;> grind

theorem trimSuffix_eq_iff {x y : String} (h : x.toList <+: y.toList) :
    Go.trimSuffix x "\r" = y ↔ x = y ∧ ¬ Go.hasSuffix y "\r" := by
  by_cases hx : Go.hasSuffix x "\r"
  · have hne : x.toList ≠ [] := fun hnil => by simp [Go.hasSuffix, hnil] at hx
    have hlen := h.length_le
    have hpos := length_pos_of_ne_nil hne
    rw [show Go.trimSuffix x "\r" = _ from if_pos hx]
    refine iff_of_false ?_ fun ⟨hxy, hy⟩ => hy (hxy ▸ hx)
    rintro rfl
    simp at hlen
    omega
  · rw [show Go.trimSuffix x "\r" = x from if_neg hx]
    exact ⟨fun hxy => ⟨hxy, hxy ▸ hx⟩, And.left⟩

theorem prefix_tokens {lines raw : List String} {buffer}
    (h : ∀ i : ℕ, ∀ x y, raw[i]? = some x → lines[i]? = some y → x.toList <+: y.toList) :
    lines <+: (raw.takeWhile fun line => line.utf8ByteSize < buffer).map (Go.trimSuffix · "\r") ↔
      lines <+: raw ∧ ∀ line ∈ lines, line.utf8ByteSize < buffer ∧ ¬ Go.hasSuffix line "\r" := by
  induction raw generalizing lines with
  | nil => cases lines <;> simp
  | cons x raw ih =>
    cases lines with
    | nil => simp
    | cons y lines =>
      have ih := @ih lines fun i => h (i + 1)
      have hxy := trimSuffix_eq_iff (h 0 x y rfl rfl)
      rw [takeWhile_cons, cons_prefix_cons, forall_mem_cons]
      split_ifs with hfits
      · rw [map_cons, cons_prefix_cons, ih, eq_comm, hxy]
        simp at hfits
        grind
      · grind

/-- Nothing is lost between the agent and the reader before the agent exits. -/
def StdoutPipe.Kept (s : StdoutPipe) : Prop :=
  s.read ++ s.pipe <+: s.written ∧ (s.exited = false → s.read ++ s.pipe = s.written)

theorem StdoutPipe.Kept.step {e s'} (h : s.Kept) (hstep : s.step e = some s') : s'.Kept := by
  cases e with
  | write text =>
    obtain ⟨hexited, ⟨⟩⟩ := Option.ite_none_left_eq_some.1 hstep
    have hsame := h.2 (by simpa using hexited)
    simp [Kept, ← hsame]
  | read n =>
    obtain ⟨-, ⟨⟩⟩ := Option.ite_none_left_eq_some.1 hstep
    simpa [Kept] using h
  | exit =>
    cases hstep
    exact ⟨h.1, nofun⟩
  | wait =>
    obtain ⟨hexited, ⟨⟩⟩ := Option.ite_none_right_eq_some.1 hstep
    refine ⟨?_, fun hrun => nomatch hexited.symm.trans hrun⟩
    rw [append_nil]
    exact (prefix_append _ _).trans h.1

end Recording

/-- Every complete line is recorded unmodified exactly if the reader was given all of them before
the pipe was closed, each fits into the buffer and does not end in a carriage return, and the agent
is not killed for them: the line it is killed for is read and not recorded. -/
theorem completeLines_recorded_iff (lib : EventLib) {s : StdoutPipe}
    (hs : Machine.Reaches StdoutPipe.step Machine.always {} s) :
    completeLines s.written <+: agentJsonl lib s.read ↔
      completeLines s.written <+: Go.rawLines (String.ofList s.read) ∧
      (∀ line ∈ completeLines s.written, line.utf8ByteSize < 256 * 1024 ∧ ¬ Go.hasSuffix line "\r") ∧
      detect lib (completeLines s.written) ≠ none := by
  have hkept : s.Kept := hs.keeps ⟨prefix_rfl, fun _ => rfl⟩ fun h _ hstep => h.step hstep
  have hread : s.read <+: s.written := (prefix_append _ _).trans hkept.1
  rw [agentJsonl, prefix_record, Go.scanLines, prefix_tokens, and_assoc]
  · rfl
  intro i x y hx hy
  have hraw : Go.rawLines (String.ofList s.read) <+: Go.split '\n' (String.ofList s.read) := by
    unfold Go.rawLines
    dsimp only
    split_ifs
    · exact dropLast_prefix _
    · exact prefix_rfl
  have hmono {l l' : List String} (h : l <+: l') {z} (hz : l[i]? = some z) : l'[i]? = some z := by
    obtain ⟨rest, rfl⟩ := h
    rw [getElem?_append_left (List.getElem?_eq_some_iff.1 hz).1, hz]
  have hx' := hmono hraw hx
  have hy' := hmono ( dropLast_prefix _) hy
  simp only [Go.split, String.toList_ofList, getElem?_map, Option.map_eq_some_iff] at hx' hy'
  obtain ⟨x, hx', rfl⟩ := hx'
  obtain ⟨y, hy', rfl⟩ := hy'
  simpa using prefix_of_splitOn hread hx' hy'

theorem completeLines_recorded_drained :
    ∃ s, Machine.Reaches StdoutPipe.step Machine.always {} s ∧ s.closed ∧
      completeLines s.written = ["done"] ∧ completeLines s.written <+: agentJsonl callEvents s.read := by
  have hrun : Machine.Reaches StdoutPipe.step Machine.always {} _ :=
    Machine.reaches_replay [.write "done\n", .read 5, .exit, .wait] rfl
  exact ⟨_, hrun, rfl, by decide, (completeLines_recorded_iff callEvents hrun).2 (by decide +kernel)⟩

/-- A line that has not been read when the agent exits is lost. -/
theorem unread_line_lost :
    ∃ s, Machine.Reaches StdoutPipe.step Machine.always {} s ∧ s.closed ∧
      ¬ completeLines s.written <+: agentJsonl callEvents s.read :=
  ⟨_, Machine.reaches_replay [.write "done\n", .exit, .wait] rfl, rfl, by decide +kernel⟩

end Uncworks
