import Uncworks.Go.Json
import Uncworks.Go.Path
import Uncworks.Go.Strings
import Uncworks.Go.Utf8

/-!
# The message in progress

The agent logs its events, one line of JSON each.  `handleThinking` shows the text of the message
that the agent is writing: it reads the last 100 lines of the log, looks backwards for the start of
a message that has not ended, and puts together the parts of the text behind it.
-/

namespace Uncworks

open List

open Go (Json JsonLib)

/-! ## Events -/

section Events

variable (lib : JsonLib) (line : String)

def eventFields : Option (List (String × Json)) :=
  if Go.trimSpace line = "" then none else (lib.parse (Go.trimSpace line)).bind Json.fields

def eventType : Option String := (eventFields lib line).bind (Json.stringField lib "type")

structure MessageUpdate where
  type : String
  delta : String
  tool : Option Json

def messageUpdate : Option MessageUpdate := do
  let evt ← eventFields lib line
  let type ← Json.stringField lib "type" evt
  if type ≠ "message_update" then none
  let raw ← Json.rawField lib "assistantMessageEvent" evt
  let ame ← raw.fields
  let type ← Json.stringField lib "type" ame
  let delta ← Json.stringField lib "delta" ame
  some { type, delta, tool := Json.rawField lib "tool" ame }

def toolName (tool : Json) : Option String :=
  match tool.fields.bind (Json.stringField lib "name") with
  | some name => if name ≠ "" then some name else none
  | none => none

end Events

/-! ## `handleThinking` -/

structure ThinkingResponse where
  thinking : Bool
  text : String := ""
  toolName : String := ""
  deriving DecidableEq

section Handler

variable (lib : JsonLib)

/-- The lines behind the last start of a message, looking backwards, if it comes before an end. -/
def afterLastStart : (before after : List String) → Option (List String)
  | [], _ => none
  | line :: before, after =>
    if eventType lib line = some "message_start" then some after
    else if eventType lib line = some "message_end" then none
    else afterLastStart before (line :: after)

def think (r : ThinkingResponse) (line : String) : ThinkingResponse :=
  match messageUpdate lib line with
  | none => r
  | some update =>
    if update.type = "text_delta" then { r with text := r.text ++ update.delta }
    else if update.type = "tool_use" then
      { r with toolName := (update.tool.bind (toolName lib)).getD r.toolName }
    else r

def parseThinkingFromLines (lines : List String) : ThinkingResponse :=
  match afterLastStart lib lines.reverse [] with
  | none => { thinking := false }
  | some after => after.foldl (think lib) { thinking := true }

def lastLines (n : ℕ) (lines : List String) : List String := lines.drop (lines.length - n)

def readLastNLines (file : Except String String) (n : ℕ) : Except String (List String) :=
  match file with
  | .error err => .error err
  | .ok text =>
    let scan := Go.scanLines (1024 * 1024) text
    if scan.tooLong then .error "read last n lines: bufio.Scanner: token too long"
    else .ok (lastLines n scan.tokens)

structure ThinkingCalls where
  hostPath : Except String String
  readFile : String → Except String String

def handleThinking (c : ThinkingCalls) (runID : String) : Except String ThinkingResponse :=
  if runID = "" then .error "missing run id"
  else
    match c.hostPath with
    | .error _ => .ok { thinking := false }
    | .ok hostPath =>
      match readLastNLines (c.readFile (Go.joinPath [hostPath, ".aot", "logs", "agent.jsonl"])) 100 with
      | .error _ => .ok { thinking := false }
      | .ok lines => .ok (parseThinkingFromLines lib lines)

end Handler

/-! ## The message in progress -/

section Law

variable (lib : JsonLib) (lines : List String)

def textDelta (line : String) : Option String :=
  (messageUpdate lib line).bind fun update =>
    if update.type = "text_delta" then some update.delta else none

def InProgress : Prop :=
  ∃ before start after, lines = before ++ start :: after ∧
    eventType lib start = some "message_start" ∧ ∀ l ∈ after, eventType lib l ≠ some "message_end"

/-- A message is reported if one is in progress, with all of its text so far. -/
structure Thinks (r : ThinkingResponse) : Prop where
  thinking : r.thinking ↔ InProgress lib lines
  text : r.thinking → ∀ before start after, lines = before ++ start :: after →
    eventType lib start = some "message_start" →
    (∀ l ∈ after, eventType lib l ≠ some "message_start") →
    r.text = String.join (after.filterMap (textDelta lib))

end Law

/-! ## Looking backwards -/

section Parse

variable {lib : JsonLib} {lines before after : List String} {line : String} {r : ThinkingResponse}

theorem inProgress_nil : ¬ InProgress lib [] := by
  rintro ⟨before, start, after, h, -⟩
  simp at h

theorem inProgress_concat : InProgress lib (lines ++ [line]) ↔
    eventType lib line = some "message_start" ∨
      eventType lib line ≠ some "message_end" ∧ InProgress lib lines := by
  constructor
  · rintro ⟨before, start, after, h, hstart, hend⟩
    obtain rfl | ⟨after, last, rfl⟩ := eq_nil_or_concat' after
    · have hlast := append_inj_right' h rfl
      exact .inl ((singleton_inj.1 hlast) ▸ hstart)
    · have hboth : lines ++ [line] = (before ++ start :: after) ++ [last] := by
        rw [h, append_assoc, cons_append]
      obtain ⟨hlines, hlast⟩ := append_inj' hboth rfl
      rw [forall_mem_append] at hend
      refine .inr ⟨?_, before, start, after, hlines, hstart, hend.1⟩
      rw [singleton_inj.1 hlast]
      exact hend.2 last mem_cons_self
  · rintro (hstart | ⟨hend, before, start, after, rfl, hstart, hafter⟩)
    · exact ⟨lines, line, [], rfl, hstart, by simp⟩
    · refine ⟨before, start, after ++ [line], by simp, hstart, ?_⟩
      exact forall_mem_append.2 ⟨hafter, forall_mem_singleton.2 hend⟩

theorem isSome_afterLastStart :
    (afterLastStart lib before after).isSome ↔ InProgress lib before.reverse := by
  induction before generalizing after with
  | nil => simpa [afterLastStart] using inProgress_nil
  | cons line before ih =>
    rw [reverse_cons, inProgress_concat, afterLastStart]
    split_ifs with hstart hend
    · exact iff_of_true rfl (.inl hstart)
    · simp [hend]
    · rw [ih, or_iff_right hstart, and_iff_right hend]

theorem afterLastStart_eq {found} (h : afterLastStart lib before after = some found) :
    ∃ first start mid, before.reverse = first ++ start :: mid ∧
      eventType lib start = some "message_start" ∧
      (∀ l ∈ mid, eventType lib l ≠ some "message_start") ∧ found = mid ++ after := by
  induction before generalizing after with
  | nil => cases h
  | cons line before ih =>
    rw [afterLastStart] at h
    split_ifs at h with hstart hend
    · exact ⟨before.reverse, line, [], by simp, hstart, by simp, (Option.some.inj h).symm⟩
    · obtain ⟨first, start, mid, hbefore, hfirst, hmid, rfl⟩ := ih h
      refine ⟨first, start, mid ++ [line], by simp [hbefore], hfirst, ?_, by simp⟩
      exact forall_mem_append.2 ⟨hmid, forall_mem_singleton.2 hstart⟩

theorem eq_of_last {α : Type*} {p : α → Prop} {a a' b b' x x'} (h : a ++ x :: b = a' ++ x' :: b')
    (hx : p x) (hx' : p x') (hb : ∀ y ∈ b, ¬ p y) (hb' : ∀ y ∈ b', ¬ p y) : b = b' := by
  obtain ⟨c, -, hc⟩ | ⟨c, -, hc⟩ := append_eq_append_iff.1 h
  · cases c with
    | nil => exact (cons.inj hc).2
    | cons y c => exact absurd hx' (hb x' ((cons.inj hc).2 ▸ by simp))
  · cases c with
    | nil => exact (cons.inj hc).2.symm
    | cons y c => exact absurd hx (hb' x ((cons.inj hc).2 ▸ by simp))

theorem thinking_think : (think lib r line).thinking = r.thinking := by
  unfold think
  split
  · rfl
  · split_ifs <;> rfl

theorem text_think : (think lib r line).text = r.text ++ (textDelta lib line).getD "" := by
  unfold think textDelta
  cases messageUpdate lib line with
  | none => simp
  | some update =>
    by_cases htext : update.type = "text_delta"
    · simp [htext]
    · by_cases htool : update.type = "tool_use" <;> simp [htext, htool]

theorem foldl_think : (lines.foldl (think lib) r).thinking = r.thinking ∧
    (lines.foldl (think lib) r).text = r.text ++ String.join (lines.filterMap (textDelta lib)) := by
  induction lines generalizing r with
  | nil => simp
  | cons line lines ih =>
    rw [foldl_cons, ih.1, ih.2, thinking_think, text_think]
    cases htext : textDelta lib line with
    | none => simp [htext]
    | some delta => simp [htext, String.append_assoc]

theorem thinks_parse (lib : JsonLib) (lines : List String) :
    Thinks lib lines (parseThinkingFromLines lib lines) := by
  have hsome : (afterLastStart lib lines.reverse []).isSome ↔ InProgress lib lines := by
    rw [isSome_afterLastStart, reverse_reverse]
  unfold parseThinkingFromLines
  cases hfound : afterLastStart lib lines.reverse [] with
  | none =>
    rw [hfound] at hsome
    exact ⟨by simpa using hsome, fun h => by cases h⟩
  | some found =>
    rw [hfound] at hsome
    refine ⟨by simpa [foldl_think.1] using hsome, fun _ before start after hlines hstart hafter => ?_⟩
    obtain ⟨first, start', mid, hfirst, hstart', hmid, rfl⟩ := afterLastStart_eq hfound
    rw [reverse_reverse] at hfirst
    rw [append_nil, foldl_think.2, String.empty_append,
      eq_of_last (hfirst.symm.trans hlines) hstart' hstart hmid hafter]

end Parse

/-! ## The log -/

def logLines (text : String) : List String :=
  (Go.rawLines text).map fun line => Go.trimSuffix line "\r"

theorem handleThinking_eq {lib c runID hostPath text} (hrun : runID ≠ "")
    (hhost : c.hostPath = .ok hostPath)
    (hfile : c.readFile (Go.joinPath [hostPath, ".aot", "logs", "agent.jsonl"]) = .ok text) :
    handleThinking lib c runID =
      if ∀ line ∈ Go.rawLines text, line.utf8ByteSize < 1024 * 1024 then
        .ok (parseThinkingFromLines lib (lastLines 100 (logLines text)))
      else .ok { thinking := false } := by
  rw [handleThinking, if_neg hrun, hhost]
  simp only [hfile, readLastNLines]
  by_cases hfits : ∀ line ∈ Go.rawLines text, line.utf8ByteSize < 1024 * 1024
  · rw [Go.tooLong_scanLines.2 hfits, Go.tokens_scanLines hfits, if_pos hfits]
    rfl
  · have hlong : (Go.scanLines (1024 * 1024) text).tooLong = true := by
      rw [← Bool.not_eq_false, Go.tooLong_scanLines]
      exact hfits
    rw [hlong, if_neg hfits]
    rfl

/-- Of a log whose lines all fit, the message in progress is found in the last 100 lines. -/
theorem thinks_window (lib : JsonLib) (c : ThinkingCalls) (runID hostPath text : String)
    (hrun : runID ≠ "") (hhost : c.hostPath = .ok hostPath)
    (hfile : c.readFile (Go.joinPath [hostPath, ".aot", "logs", "agent.jsonl"]) = .ok text)
    (hfits : ∀ line ∈ Go.rawLines text, line.utf8ByteSize < 1024 * 1024) :
    ∃ r, handleThinking lib c runID = .ok r ∧ Thinks lib (lastLines 100 (logLines text)) r :=
  ⟨_, by rw [handleThinking_eq hrun hhost hfile, if_pos hfits], thinks_parse lib _⟩

def startLine : String := "\x7b\"type\":\"message_start\"\x7d"

def updateLine : String :=
  "\x7b\"type\":\"message_update\",\"assistantMessageEvent\":" ++
    "\x7b\"type\":\"text_delta\",\"delta\":\"Hi\"\x7d\x7d"

def sampleJson : JsonLib where
  parse text :=
    if text = startLine then some (.obj [("type", .str "message_start")])
    else if text = updateLine then
      some (.obj [("type", .str "message_update"),
        ("assistantMessageEvent", .obj [("type", .str "text_delta"), ("delta", .str "Hi")])])
    else none
  sameKey key name := key = name

def sampleLog (text : String) : ThinkingCalls where
  hostPath := .ok "/data/work"
  readFile _ := .ok text

theorem thinks_window_hi :
    ∃ r, handleThinking sampleJson (sampleLog (Go.joinLines [startLine, updateLine]))
        "ar-k3f9qz" = .ok r ∧
      Thinks sampleJson (lastLines 100 (logLines (Go.joinLines [startLine, updateLine]))) r :=
  thinks_window sampleJson _ "ar-k3f9qz" "/data/work" _ (by decide) rfl rfl (by decide +kernel)

theorem eventType_sampleJson (line : String) : eventType sampleJson line ≠ some "message_end" := by
  simp only [eventType, eventFields, sampleJson]
  split_ifs
  · simp
  · decide
  · decide
  · simp

def blankLine (n : ℕ) : String := String.ofList (replicate n ' ')

theorem not_mem_blankLine {n c} (h : c ≠ ' ') : c ∉ (blankLine n).toList := by
  rw [blankLine, String.toList_ofList]
  exact fun hmem => h (mem_replicate.1 hmem).2

theorem utf8ByteSize_blankLine (n : ℕ) : (blankLine n).utf8ByteSize = n := by
  have hsize : ' '.utf8Size = 1 := by decide
  rw [blankLine, Go.utf8ByteSize_eq_sum, String.toList_ofList, map_replicate,
    sum_replicate_nat, hsize, Nat.mul_one]

theorem not_thinks_of_start {after r}
    (h : ∀ line ∈ startLine :: after, '\n' ∉ line.toList ∧ '\r' ∉ line.toList)
    (hfits : (∀ line ∈ startLine :: after, line.utf8ByteSize < 1024 * 1024) →
      (parseThinkingFromLines sampleJson (lastLines 100 (startLine :: after))).thinking = false)
    (hr : handleThinking sampleJson (sampleLog (Go.joinLines (startLine :: after))) "ar-k3f9qz" =
      .ok r) : ¬ Thinks sampleJson (logLines (Go.joinLines (startLine :: after))) r := by
  have hraw := Go.rawLines_joinLines fun line hline => (h line hline).1
  have hlines : logLines (Go.joinLines (startLine :: after)) = startLine :: after := by
    rw [logLines, hraw]
    exact (map_congr_left fun line hline => Go.trimSuffix_of_not_mem (h line hline).2).trans
      (map_id _)
  have hfalse : r.thinking = false := by
    rw [handleThinking_eq (by decide) rfl rfl, hraw, hlines] at hr
    split_ifs at hr with hfit
    · rw [← Except.ok.inj hr, hfits hfit]
    · rw [← Except.ok.inj hr]
  intro hthinks
  have hprogress := hthinks.thinking.2 ⟨[], startLine, after, hlines, by decide +kernel,
    fun line _ => eventType_sampleJson line⟩
  rw [hfalse] at hprogress
  cases hprogress

/-- A message that goes on for 100 lines is not found, and neither is one with a line that does not
fit. -/
theorem thinking_missed :
    (∀ r, handleThinking sampleJson
        (sampleLog (Go.joinLines (startLine :: List.replicate 100 updateLine)))
        "ar-k3f9qz" = .ok r → ¬ Thinks sampleJson
        (logLines (Go.joinLines (startLine :: List.replicate 100 updateLine))) r) ∧
    ∀ r, handleThinking sampleJson (sampleLog (Go.joinLines [startLine, blankLine (1024 * 1024)]))
        "ar-k3f9qz" = .ok r →
      ¬ Thinks sampleJson (logLines (Go.joinLines [startLine, blankLine (1024 * 1024)])) r := by
  refine ⟨fun r => not_thinks_of_start (by decide +kernel) fun _ => by decide +kernel,
    fun r => not_thinks_of_start ?_ fun hfits => ?_⟩
  · rw [List.forall_mem_cons, List.forall_mem_singleton]
    exact ⟨by decide +kernel, not_mem_blankLine (by decide), not_mem_blankLine (by decide)⟩
  · have hlt := hfits _ (List.mem_cons_of_mem _ List.mem_cons_self)
    rw [utf8ByteSize_blankLine] at hlt
    exact absurd hlt (Nat.lt_irrefl _)

end Uncworks
