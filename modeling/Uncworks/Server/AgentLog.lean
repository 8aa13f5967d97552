import Uncworks.Dedup.Firsts
import Uncworks.Server.Thinking

/-!
# The structured log of an agent

`parseAgentJSONL` turns the events that an agent has logged into the entries of its conversation.
Repeats are recognised by the id of a call, and by the role and the text of a message, so that two
messages of the same role with the same text are one entry.
-/

namespace Uncworks

open List

open Go (Json JsonLib)

/-! ## Events -/

structure LogLib extends JsonLib where
  /-- `json.Marshal` of a map, which can be nil. -/
  marshal : Option (List (String × Json)) → String
  /-- A number of milliseconds, in the form of RFC 3339. -/
  formatMillis : String → String

inductive Block where
  | text (text : String)
  | toolCall (name id : String) (arguments : Option (List (String × Json)))
  /-- The result of a tool, or a block of an unknown type: it is skipped. -/
  | other

structure Message where
  role : String
  timestamp : Option Json
  model : String
  content : List Block

inductive LoggedEvent where
  | session (timestamp : Option String)
  | toolExecutionStart (toolName toolCallID : String) (args : Option (List (String × Json)))
  | toolExecutionEnd (toolName : String) (isError : Bool) (result : String)
  | messageEnd (msg : Message)
  | turnEnd (msg : Message)
  | agentEnd (messages : List Message)
  | agentStart
  | other

def decodeBlock (c : Json) : Block :=
  match c.asMap with
  | none => .other
  | some cm =>
    match Json.stringValue "type" cm with
    | "text" => .text (Json.stringValue "text" cm)
    | "toolCall" =>
      .toolCall (Json.stringValue "name" cm) (Json.stringValue "id" cm)
        ((Json.value "arguments" cm).bind Json.asMap)
    | _ => .other

def decodeMessage (msg : List (String × Json)) : Message where
  role := Json.stringValue "role" msg
  timestamp := Json.value "timestamp" msg
  model := Json.stringValue "model" msg
  content := (((Json.value "content" msg).bind Json.asArray).getD []).map decodeBlock

def extractResultContent : Option Json → String
  | some (.str s) => s
  | some (.arr blocks) =>
    "\n".intercalate (blocks.filterMap fun block =>
      (block.asMap.bind (Json.value "text")).bind Json.asString)
  | _ => ""

def decodeEvent (event : List (String × Json)) : LoggedEvent :=
  match Json.stringValue "type" event with
  | "session" => .session ((Json.value "timestamp" event).bind Json.asString)
  | "tool_execution_start" =>
    .toolExecutionStart (Json.stringValue "toolName" event) (Json.stringValue "toolCallId" event)
      ((Json.value "args" event).bind Json.asMap)
  | "tool_execution_end" =>
    .toolExecutionEnd (Json.stringValue "toolName" event)
      (((Json.value "isError" event).bind Json.asBool).getD false)
      (match (Json.value "result" event).bind Json.asMap with
        | some result => extractResultContent (Json.value "content" result)
        | none => "")
  | "message_end" =>
    match (Json.value "message" event).bind Json.asMap with
    | some msg => .messageEnd (decodeMessage msg)
    | none => .other
  | "turn_end" =>
    match (Json.value "message" event).bind Json.asMap with
    | some msg => .turnEnd (decodeMessage msg)
    | none => .other
  | "agent_end" =>
    .agentEnd ((((Json.value "messages" event).bind Json.asArray).getD []).filterMap fun m =>
      m.asMap.map decodeMessage)
  | "agent_start" => .agentStart
  | _ => .other

def lineEvent (lib : JsonLib) (line : String) : Option LoggedEvent :=
  (eventFields lib line).map decodeEvent

def logEvents (lib : JsonLib) (raw : String) : List LoggedEvent :=
  (Go.split '\n' raw).filterMap (lineEvent lib)

/-! ## `parseAgentJSONL` -/

structure AgentLogEntry where
  timestamp : String
  type : String
  content : String := ""
  toolName : String := ""
  toolInput : String := ""
  model : String := ""

structure LogScan where
  entries : List AgentLogEntry := []
  seenToolCalls : List String := []
  seenTexts : List (List UInt8) := []

def textKey (role text : String) : List UInt8 := Go.utf8 (role ++ ":" ++ text)

def resultKey (toolName result : String) : List UInt8 :=
  (Go.utf8 ("tool_result:" ++ toolName ++ ":" ++ result)).take 200

namespace LogScan

def addText (s : LogScan) (role text : String) (entry : AgentLogEntry) : LogScan :=
  if text = "" ∨ textKey role text ∈ s.seenTexts then s
  else { s with entries := s.entries ++ [entry], seenTexts := textKey role text :: s.seenTexts }

def addCall (s : LogScan) (id : String) (entry : AgentLogEntry) : LogScan :=
  if id ≠ "" ∧ "tc:" ++ id ∈ s.seenToolCalls then s
  else
    { s with
      entries := s.entries ++ [entry]
      seenToolCalls := if id ≠ "" then ("tc:" ++ id) :: s.seenToolCalls else s.seenToolCalls }

def addNote (s : LogScan) (entry : AgentLogEntry) : LogScan :=
  { s with entries := s.entries ++ [entry] }

end LogScan

section Parse

variable (lib : LogLib)

def formatTimestamp (ts : Option Json) (fallback : String) : String :=
  match ts with
  | some (.num v) => lib.formatMillis v
  | some (.str v) => v
  | _ => fallback

def textEntry (role ts model text : String) : AgentLogEntry where
  timestamp := ts
  type := role
  content := text
  model := model

def callEntry (ts model name : String) (args : Option (List (String × Json))) : AgentLogEntry where
  timestamp := ts
  type := if name = "delegate_task" then "delegate" else "tool_call"
  toolName := name
  toolInput := lib.marshal args
  model := model

def extractContentEntries (s : LogScan) (contents : List Block) (role ts model : String) : LogScan :=
  contents.foldl (fun s c =>
    match c with
    | .text text =>
      s.addText role (Go.trimSpace text) (textEntry role ts model (Go.trimSpace text))
    | .toolCall name id args => s.addCall id (callEntry lib ts model name args)
    | .other => s) s

def extractMessage (session : String) (s : LogScan) (msg : Message) (role : String) : LogScan :=
  extractContentEntries lib s msg.content role (formatTimestamp lib msg.timestamp session) msg.model

def shownResult (isError : Bool) (result : String) : String :=
  if isError then "[error] " ++ result else result

def resultEntry (session toolName shown : String) : AgentLogEntry where
  timestamp := session
  type := "tool_result"
  content := shown
  toolName := toolName

def systemEntry (session content : String) : AgentLogEntry where
  timestamp := session
  type := "system"
  content := content

def parseEvent (session : String) (s : LogScan) : LoggedEvent → LogScan
  | .session _ => s
  | .toolExecutionStart toolName toolCallID args =>
    s.addCall toolCallID (callEntry lib session "" toolName args)
  | .toolExecutionEnd toolName isError result =>
    let s := { s with seenTexts := resultKey toolName result :: s.seenTexts }
    if shownResult isError result ≠ "" then
      s.addNote (resultEntry session toolName (shownResult isError result))
    else s
  | .messageEnd msg => extractMessage lib session s msg msg.role
  | .turnEnd msg => extractMessage lib session s msg "assistant"
  | .agentEnd messages =>
    (messages.foldl (fun s msg =>
      if msg.role = "toolResult" then s else extractMessage lib session s msg msg.role) s).addNote
        (systemEntry session "Agent finished")
  | .agentStart => s.addNote (systemEntry session "Agent started")
  | .other => s

def LoggedEvent.sessionTimestamp (session : String) : LoggedEvent → String
  | .session (some ts) => ts
  | _ => session

def parseEvents : (session : String) → LogScan → List LoggedEvent → LogScan
  | _, s, [] => s
  | session, s, e :: events =>
    parseEvents (e.sessionTimestamp session) (parseEvent lib session s e) events

def parseAgentJSONL (raw : String) : List AgentLogEntry :=
  (parseEvents lib "" {} (logEvents lib.toJsonLib raw)).entries

end Parse

/-! ## What a log tells

The pieces of a log in their order, those that come with `turn_end` and `agent_end` apart. -/

/-- What a block of a message says, however often it is said. -/
inductive Content where
  | text (role text : String)
  | call (id : String)
  deriving DecidableEq

/-- A text or a call, or else the result of a tool or a remark, with the entry for it. -/
structure Told where
  content : Option Content
  entry : AgentLogEntry

def Told.call (t : Told) : Option String :=
  match t.content with
  | some (.call id) => some id
  | _ => none

inductive Piece where
  | told (t : Told)
  /-- It came with `turn_end` or `agent_end`. -/
  | again (c : Content) (entry : AgentLogEntry)
  /-- The key of a result is remembered. -/
  | mark (key : List UInt8)

section Pieces

variable (lib : LogLib)

def Block.content (role ts model : String) : Block → Option (Content × AgentLogEntry)
  | .text t => some (.text role (Go.trimSpace t), textEntry role ts model (Go.trimSpace t))
  | .toolCall name id args => some (.call id, callEntry lib ts model name args)
  | .other => none

def Message.contents (session role : String) (msg : Message) : List (Content × AgentLogEntry) :=
  msg.content.filterMap (Block.content lib role (formatTimestamp lib msg.timestamp session) msg.model)

def LoggedEvent.pieces (session : String) : LoggedEvent → List Piece
  | .toolExecutionStart toolName toolCallID args =>
    [.told ⟨some (.call toolCallID), callEntry lib session "" toolName args⟩]
  | .toolExecutionEnd toolName isError result =>
    .mark (resultKey toolName result) ::
      if shownResult isError result ≠ "" then
        [.told ⟨none, resultEntry session toolName (shownResult isError result)⟩]
      else []
  | .messageEnd msg => (msg.contents lib session msg.role).map fun c => .told ⟨some c.1, c.2⟩
  | .turnEnd msg => (msg.contents lib session "assistant").map fun c => .again c.1 c.2
  | .agentEnd messages =>
    ((messages.filter fun msg => msg.role ≠ "toolResult").flatMap fun msg =>
      (msg.contents lib session msg.role).map fun c => .again c.1 c.2) ++
        [.told ⟨none, systemEntry session "Agent finished"⟩]
  | .agentStart => [.told ⟨none, systemEntry session "Agent started"⟩]
  | .session _ | .other => []

def piecesFrom : (session : String) → List LoggedEvent → List Piece
  | _, [] => []
  | session, e :: events => e.pieces lib session ++ piecesFrom (e.sessionTimestamp session) events

def logPieces (raw : String) : List Piece := piecesFrom lib "" (logEvents lib.toJsonLib raw)

end Pieces

namespace Piece

/-- What is told for the first time, as far as the kind of the event says. -/
def told? : Piece → Option Told
  | .told t => some t
  | _ => none

def content : Piece → Option Content
  | .told t => t.content
  | .again c _ => some c
  | .mark _ => none

def text : Piece → Option (String × String)
  | .told ⟨some (.text role t), _⟩ => some (role, t)
  | _ => none

def key : Piece → Option (List UInt8)
  | .mark key => some key
  | p => p.text.map fun t => textKey t.1 t.2

end Piece

/-- One entry for each text of a `message_end`, each result and each remark, and one for each call.
-/
def OneEach (pieces : List Piece) (entries : List AgentLogEntry) : Prop :=
  ∃ kept, Dedup.OnePer Told.call (pieces.filterMap Piece.told?) kept ∧ entries = kept.map Told.entry

/-- `turn_end` and `agent_end` say nothing new; a text without a character says nothing. -/
def onlyRepeats : (said : List Content) → List Piece → Bool
  | _, [] => true
  | said, .told t :: pieces => onlyRepeats (t.content.toList ++ said) pieces
  | said, .again c _ :: pieces =>
    (c ∈ said || (match c with | .text _ text => text = "" | .call _ => false)) &&
      onlyRepeats said pieces
  | said, .mark _ :: pieces => onlyRepeats said pieces

/-- Every call has an id, and `turn_end`, which is about the assistant, and `agent_end` only repeat.
-/
structure WellFormedLog (pieces : List Piece) : Prop where
  ids : ∀ p ∈ pieces, p.content ≠ some (.call "")
  repeats : onlyRepeats [] pieces

/-- No text of a `message_end` is empty or has the key of an earlier text, or of an earlier result.
-/
structure TextsApart (pieces : List Piece) : Prop where
  nonempty : ∀ p ∈ pieces, ∀ t ∈ p.text, t.2 ≠ ""
  apart : pieces.Pairwise fun p q => q.text = none ∨ p.key ≠ q.key

/-! ## The entries of a log -/

section Reading

variable (lib : LogLib)

def LogScan.add (s : LogScan) (c : Content) (entry : AgentLogEntry) : LogScan :=
  match c with
  | .text role text => s.addText role text entry
  | .call id => s.addCall id entry

def LogScan.read (s : LogScan) : Piece → LogScan
  | .told ⟨some c, entry⟩ => s.add c entry
  | .told ⟨none, entry⟩ => s.addNote entry
  | .again c entry => s.add c entry
  | .mark key => { s with seenTexts := key :: s.seenTexts }

theorem extractMessage_eq (session role : String) (s : LogScan) (msg : Message) :
    extractMessage lib session s msg role =
      (msg.contents lib session role).foldl (fun s c => s.add c.1 c.2) s := by
  rw [extractMessage, extractContentEntries, Message.contents, foldl_filterMap]
  congr 1
  funext s block
  cases block <;> rfl

theorem parseEvent_eq (session : String) (s : LogScan) (e : LoggedEvent) :
    parseEvent lib session s e = (e.pieces lib session).foldl LogScan.read s := by
  cases e with
  | session | other | agentStart | toolExecutionStart => rfl
  | toolExecutionEnd toolName isError result =>
    rw [parseEvent, LoggedEvent.pieces]
    split_ifs <;> rfl
  | messageEnd msg | turnEnd msg =>
    rw [parseEvent, LoggedEvent.pieces, foldl_map, extractMessage_eq]
    rfl
  | agentEnd messages =>
    rw [parseEvent, LoggedEvent.pieces, foldl_append, foldl_flatMap, foldl_filter]
    simp only [foldl_map, extractMessage_eq]
    congr 2
    funext s msg
    by_cases hrole : msg.role = "toolResult" <;> simp [LogScan.read]

theorem parseEvents_eq (session : String) (s : LogScan) (events : List LoggedEvent) :
    parseEvents lib session s events = (piecesFrom lib session events).foldl LogScan.read s := by
  induction events generalizing session s with
  | nil => rfl
  | cons e events ih => rw [parseEvents, piecesFrom, foldl_append, ih, parseEvent_eq]

theorem parseAgentJSONL_eq (raw : String) :
    parseAgentJSONL lib raw = ((logPieces lib raw).foldl LogScan.read {}).entries := by
  rw [parseAgentJSONL, parseEvents_eq, logPieces]

end Reading

/-! ## Which texts are lost -/

section Losses

variable {s : LogScan} {said : List Content} {pieces : List Piece}

structure Knows (s : LogScan) (said : List Content) : Prop where
  calls : ∀ id ≠ "", "tc:" ++ id ∈ s.seenToolCalls ↔ .call id ∈ said
  texts : ∀ role text, .text role text ∈ said → text = "" ∨ textKey role text ∈ s.seenTexts

namespace Knows

variable {entry : AgentLogEntry} {role text id : String} {key : List UInt8}

theorem init : Knows {} [] where
  calls := by simp
  texts := by simp

theorem addNote (h : Knows s said) : Knows (s.addNote entry) said := ⟨h.calls, h.texts⟩

theorem mark (h : Knows s said) : Knows { s with seenTexts := key :: s.seenTexts } said where
  calls := h.calls
  texts role text hmem := (h.texts role text hmem).imp_right (mem_cons_of_mem key)

theorem addText (h : Knows s said) : Knows (s.addText role text entry) (.text role text :: said) := by
  rw [LogScan.addText]
  split_ifs with hseen
  · refine ⟨fun id hid => by simp [h.calls id hid], fun role' text' hmem => ?_⟩
    obtain heq | hmem := mem_cons.1 hmem
    · cases heq
      exact hseen
    · exact h.texts role' text' hmem
  · refine ⟨fun id hid => by simp [h.calls id hid], fun role' text' hmem => ?_⟩
    obtain heq | hmem := mem_cons.1 hmem
    · cases heq
      exact .inr mem_cons_self
    · exact (h.texts role' text' hmem).imp_right (mem_cons_of_mem _)

theorem addCall (h : Knows s said) (hid : id ≠ "") :
    Knows (s.addCall id entry) (.call id :: said) := by
  rw [LogScan.addCall]
  split_ifs with hseen
  · have hsaid := (h.calls id hid).1 hseen.2
    refine ⟨fun id' hid' => ?_, fun role text hmem => h.texts role text (by simpa using hmem)⟩
    rw [h.calls id' hid', mem_cons]
    exact ⟨.inr, fun hor => hor.elim (fun heq => heq ▸ hsaid) fun hmem => hmem⟩
  · refine ⟨fun id' hid' => ?_, fun role text hmem => h.texts role text (by simpa using hmem)⟩
    simp [h.calls id' hid']

theorem add_eq (h : Knows s said) {c} (hc : c ∈ said) (hid : c ≠ .call "") : s.add c entry = s := by
  cases c with
  | text role text => exact if_pos (h.texts role text hc)
  | call id =>
    have hne : id ≠ "" := fun heq => hid (heq ▸ rfl)
    exact if_pos ⟨hne, (h.calls id hne).2 hc⟩

end Knows

def saidCalls (said : List Content) : List String :=
  said.filterMap fun | .call id => some id | .text .. => none

theorem mem_saidCalls {id} : id ∈ saidCalls said ↔ .call id ∈ said := by
  simp only [saidCalls, mem_filterMap]
  constructor
  · rintro ⟨c, hc, hid⟩
    cases c with
    | text => cases hid
    | call id' => cases hid; exact hc
  · exact fun h => ⟨_, h, rfl⟩

/-- `TextsApart`, also from the keys that are known already. -/
structure ApartFrom (texts : List (List UInt8)) (pieces : List Piece) : Prop
    extends TextsApart pieces where
  fresh : ∀ p ∈ pieces, ∀ t ∈ p.text, textKey t.1 t.2 ∉ texts

theorem Piece.key_of_text {p : Piece} {t} (h : p.text = some t) :
    p.key = some (textKey t.1 t.2) := by
  cases p with
  | told | again => simp [Piece.key, h]
  | mark => cases h

theorem apartFrom_cons {texts p} :
    ApartFrom texts (p :: pieces) ↔
      (∀ t ∈ p.text, t.2 ≠ "" ∧ textKey t.1 t.2 ∉ texts) ∧
        ApartFrom (p.key.toList ++ texts) pieces := by
  constructor
  · intro h
    have hpair := pairwise_cons.1 h.apart
    refine ⟨fun t ht => ⟨h.nonempty p mem_cons_self t ht, h.fresh p mem_cons_self t ht⟩,
      ⟨fun q hq => h.nonempty q (mem_cons_of_mem p hq), hpair.2⟩, fun q hq t ht => ?_⟩
    have hfresh := h.fresh q (mem_cons_of_mem p hq) t ht
    have hkey := (hpair.1 q hq).resolve_left (by simp [Option.mem_def.1 ht])
    rw [Piece.key_of_text ht] at hkey
    simpa [hfresh] using hkey
  · rintro ⟨hp, h⟩
    refine ⟨⟨forall_mem_cons.2 ⟨fun t ht => (hp t ht).1, h.nonempty⟩,
      pairwise_cons.2 ⟨fun q hq => ?_, h.apart⟩⟩,
      forall_mem_cons.2 ⟨fun t ht => (hp t ht).2, fun q hq t ht hmem => ?_⟩⟩
    · cases ht : q.text with
      | none => exact .inl rfl
      | some t =>
        refine .inr fun heq => h.fresh q hq t ht ?_
        simp [heq, Piece.key_of_text ht]
    · exact h.fresh q hq t ht (mem_append_right _ hmem)

theorem apartFrom_cons_of_no_text {texts p} (h : p.text = none) :
    ApartFrom texts (p :: pieces) ↔ ApartFrom (p.key.toList ++ texts) pieces := by
  rw [apartFrom_cons, h]
  exact and_iff_right fun _ ht => absurd ht (Option.not_mem_none _)

def toldOnce (said : List Content) (pieces : List Piece) : List Told :=
  Dedup.firsts Told.call (saidCalls said) (pieces.filterMap Piece.told?)

/-- The entries that the pieces add are for a part of what they tell, and for all of it if the texts
are apart. -/
def Adds (s : LogScan) (said : List Content) (pieces : List Piece) : Prop :=
  ∃ kept, (pieces.foldl LogScan.read s).entries = s.entries ++ kept.map Told.entry ∧
    kept.Sublist (toldOnce said pieces) ∧
    (kept = toldOnce said pieces ↔ ApartFrom s.seenTexts pieces)

namespace Adds

variable {s' : LogScan} {said' : List Content} {p : Piece} {t : Told}

theorem skip (hread : s.read p = s') (h : Adds s' said' pieces) (hentries : s'.entries = s.entries)
    (htold : toldOnce said (p :: pieces) = toldOnce said' pieces)
    (hapart : ApartFrom s.seenTexts (p :: pieces) ↔ ApartFrom s'.seenTexts pieces) :
    Adds s said (p :: pieces) := by
  obtain ⟨kept, hkept, hsub, hiff⟩ := h
  refine ⟨kept, ?_, htold ▸ hsub, by rw [htold, hiff, hapart]⟩
  rw [foldl_cons, hread, hkept, hentries]

theorem keep (hread : s.read p = s') (h : Adds s' said' pieces)
    (hentries : s'.entries = s.entries ++ [t.entry])
    (htold : toldOnce said (p :: pieces) = t :: toldOnce said' pieces)
    (hapart : ApartFrom s.seenTexts (p :: pieces) ↔ ApartFrom s'.seenTexts pieces) :
    Adds s said (p :: pieces) := by
  obtain ⟨kept, hkept, hsub, hiff⟩ := h
  refine ⟨t :: kept, ?_, htold ▸ hsub.cons_cons t, by rw [htold, cons_inj_right, hiff, hapart]⟩
  rw [foldl_cons, hread, hkept, hentries, map_cons, append_assoc,
    singleton_append]

theorem lose (hread : s.read p = s') (h : Adds s' said' pieces) (hentries : s'.entries = s.entries)
    (htold : toldOnce said (p :: pieces) = t :: toldOnce said' pieces)
    (hapart : ¬ ApartFrom s.seenTexts (p :: pieces)) : Adds s said (p :: pieces) := by
  obtain ⟨kept, hkept, hsub, -⟩ := h
  refine ⟨kept, by rw [foldl_cons, hread, hkept, hentries], htold ▸ hsub.cons t,
    iff_of_false (fun heq => ?_) hapart⟩
  have hlen := hsub.length_le
  rw [heq, htold] at hlen
  exact Nat.not_succ_le_self _ hlen

end Adds

theorem adds_told_text {role text entry} (hs : Knows s said)
    (h : ∀ {s'}, Knows s' (.text role text :: said) → Adds s' (.text role text :: said) pieces) :
    Adds s said (.told ⟨some (.text role text), entry⟩ :: pieces) := by
  have hknows : Knows (s.addText role text entry) (.text role text :: said) := hs.addText
  have htold : toldOnce said (.told ⟨some (.text role text), entry⟩ :: pieces) =
      ⟨some (.text role text), entry⟩ :: toldOnce (.text role text :: said) pieces :=
    Dedup.firsts_cons_none rfl
  by_cases hseen : text = "" ∨ textKey role text ∈ s.seenTexts
  · have hread : s.addText role text entry = s := if_pos hseen
    refine .lose hread (h (hread ▸ hknows)) rfl htold fun hapart => ?_
    obtain ⟨hne, hnot⟩ := (apartFrom_cons.1 hapart).1 _ rfl
    exact hseen.elim hne hnot
  · have hread : s.addText role text entry =
        { s with entries := s.entries ++ [entry], seenTexts := textKey role text :: s.seenTexts } :=
      if_neg hseen
    refine .keep hread (h (hread ▸ hknows)) rfl htold ?_
    refine apartFrom_cons.trans (and_iff_right fun t ht => ?_)
    cases ht
    exact not_or.1 hseen

theorem adds_told_call {id entry} (hs : Knows s said) (hid : id ≠ "")
    (h : ∀ {s'}, Knows s' (.call id :: said) → Adds s' (.call id :: said) pieces) :
    Adds s said (.told ⟨some (.call id), entry⟩ :: pieces) := by
  have hknows : Knows (s.addCall id entry) (.call id :: said) := hs.addCall hid
  have hcall : Told.call ⟨some (.call id), entry⟩ = some id := rfl
  by_cases hsaid : .call id ∈ said
  · have hread : s.addCall id entry = s := if_pos ⟨hid, (hs.calls id hid).2 hsaid⟩
    refine .skip hread (h (hread ▸ hknows)) rfl ?_ (apartFrom_cons_of_no_text rfl)
    have hseen : toldOnce said (.told ⟨some (.call id), entry⟩ :: pieces) = toldOnce said pieces :=
      Dedup.firsts_cons_seen hcall (mem_saidCalls.2 hsaid)
    refine hseen.trans (Dedup.firsts_congr fun k => ?_)
    simp only [mem_saidCalls, mem_cons]
    exact ⟨.inr, fun hor => hor.elim (fun heq => heq ▸ hsaid) fun hmem => hmem⟩
  · have hread : s.addCall id entry =
        { s with
          entries := s.entries ++ [entry]
          seenToolCalls := if id ≠ "" then ("tc:" ++ id) :: s.seenToolCalls else s.seenToolCalls } :=
      if_neg fun hseen => hsaid ((hs.calls id hid).1 hseen.2)
    exact .keep hread (h (hread ▸ hknows)) rfl
      (Dedup.firsts_cons_new hcall fun hmem => hsaid (mem_saidCalls.1 hmem))
      (apartFrom_cons_of_no_text rfl)

theorem adds_again {c entry} (hs : Knows s said) (hid : c ≠ .call "")
    (hc : c ∈ said ∨ ∃ role, c = .text role "") (h : Adds s said pieces) :
    Adds s said (.again c entry :: pieces) := by
  have hread : s.add c entry = s := by
    obtain hc | ⟨role, rfl⟩ := hc
    · exact hs.add_eq hc hid
    · rw [LogScan.add, LogScan.addText, if_pos (Or.inl rfl)]
  exact .skip hread h rfl rfl (apartFrom_cons_of_no_text rfl)

theorem adds_pieces (hs : Knows s said) (hids : ∀ p ∈ pieces, p.content ≠ some (.call ""))
    (hrepeats : onlyRepeats said pieces) : Adds s said pieces := by
  induction pieces generalizing s said with
  | nil => exact ⟨[], by simp, .slnil, iff_of_true rfl ⟨⟨nofun, .nil⟩, nofun⟩⟩
  | cons p pieces ih =>
    obtain ⟨hid, hrest⟩ := forall_mem_cons.1 hids
    rcases p with ⟨⟨_ | c, entry⟩⟩ | ⟨c, entry⟩ | key
    · exact .keep rfl (ih hs.addNote hrest hrepeats) rfl (Dedup.firsts_cons_none rfl)
        (apartFrom_cons_of_no_text rfl)
    · cases c with
      | text role text => exact adds_told_text hs fun hs' => ih hs' hrest hrepeats
      | call id =>
        exact adds_told_call hs (fun heq => hid (heq ▸ rfl)) fun hs' => ih hs' hrest hrepeats
    · obtain ⟨hc, hrepeats⟩ := Bool.and_eq_true_iff.1 hrepeats
      refine adds_again hs (fun heq => hid (heq ▸ rfl)) ?_ (ih hs hrest hrepeats)
      cases c with
      | text role text | call id => simpa using hc
    · exact .skip rfl (ih hs.mark hrest hrepeats) rfl rfl
        (apartFrom_cons_of_no_text rfl)

/-- A well-formed log has one entry for each text and each call exactly if its texts are apart. -/
theorem parseAgentJSONL_oneEach_iff (lib : LogLib) (raw : String)
    (hlog : WellFormedLog (logPieces lib raw)) :
    OneEach (logPieces lib raw) (parseAgentJSONL lib raw) ↔ TextsApart (logPieces lib raw) := by
  obtain ⟨kept, hentries, hsub, hiff⟩ := adds_pieces Knows.init hlog.ids hlog.repeats
  have honce : Dedup.OnePer Told.call ((logPieces lib raw).filterMap Piece.told?)
      (toldOnce [] (logPieces lib raw)) := Dedup.onePer_firsts _
  have hapart : ApartFrom [] (logPieces lib raw) ↔ TextsApart (logPieces lib raw) :=
    ⟨ApartFrom.toTextsApart, fun h => ⟨h, fun _ _ _ _ => List.not_mem_nil⟩⟩
  rw [← hapart, ← hiff, parseAgentJSONL_eq, hentries]
  constructor
  · -- All lists with one entry each have the same length, so that nothing is missing.
    rintro ⟨kept', hone, heq⟩
    have hlen : kept.length = kept'.length := by simpa using congrArg List.length heq
    exact hsub.eq_of_length (hlen.trans (hone.length_eq.trans honce.length_eq.symm))
  · rintro rfl
    exact ⟨_, honce, rfl⟩

end Losses

def bashLine : String :=
  "\x7b\"type\":\"tool_execution_start\",\"toolName\":\"bash\",\"toolCallId\":\"tc-1\"\x7d"

def doneLine (type : String) : String :=
  "\x7b\"type\":\"" ++ type ++ "\",\"message\":\x7b\"role\":\"assistant\",\"content\":" ++
    "[\x7b\"type\":\"text\",\"text\":\"Done.\"\x7d]\x7d\x7d"

def doneEvent (type : String) : Json :=
  .obj [("type", .str type), ("message", .obj [("role", .str "assistant"),
    ("content", .arr [.obj [("type", .str "text"), ("text", .str "Done.")]])])]

def parseAgentLine (text : String) : Option Json :=
  if text = bashLine then
    some (.obj [("type", .str "tool_execution_start"), ("toolName", .str "bash"),
      ("toolCallId", .str "tc-1")])
  else if text = doneLine "message_end" then some (doneEvent "message_end")
  else if text = doneLine "turn_end" then some (doneEvent "turn_end")
  else none

def agentLogLib : LogLib where
  parse := parseAgentLine
  sameKey := (· == ·)
  marshal _ := "null"
  formatMillis ms := ms

def logOf (lines : List String) : String :=
  String.ofList (['\n'].intercalate (lines.map String.toList))

def IsLine (line : String) : Prop := line ≠ "" ∧ Go.trimSpace line = line ∧ '\n' ∉ line.toList

def sampleLines : List String := [bashLine, doneLine "message_end", doneLine "turn_end"]

theorem isLine_sampleLines : ∀ line ∈ sampleLines, IsLine line := by
  unfold IsLine
  decide +kernel

theorem logEvents_logOf {lines} (h : lines ⊆ sampleLines) (hne : lines ≠ []) :
    logEvents agentLogLib.toJsonLib (logOf lines) =
      lines.filterMap fun line => ((parseAgentLine line).bind Json.fields).map decodeEvent := by
  rw [logEvents, logOf, Go.split_intercalate (fun l hl => (isLine_sampleLines l (h hl)).2.2) hne]
  refine filterMap_congr fun line hline => ?_
  obtain ⟨hnonempty, htrim, -⟩ := isLine_sampleLines line (h hline)
  rw [lineEvent, eventFields, htrim, if_neg hnonempty]
  rfl

def doneMessage : Message := ⟨"assistant", none, "", [.text "Done."]⟩

def turnLog : String := logOf [bashLine, doneLine "message_end", doneLine "turn_end"]

theorem logPieces_turnLog :
    logPieces agentLogLib turnLog =
      piecesFrom agentLogLib ""
        [.toolExecutionStart "bash" "tc-1" none, .messageEnd doneMessage, .turnEnd doneMessage] := by
  rw [logPieces, turnLog, logEvents_logOf (by simp [sampleLines]) (by simp)]
  rfl

theorem parseAgentJSONL_oneEach_turnLog :
    OneEach (logPieces agentLogLib turnLog) (parseAgentJSONL agentLogLib turnLog) := by
  have hlog : WellFormedLog (logPieces agentLogLib turnLog) := by
    rw [logPieces_turnLog]
    exact ⟨by decide +kernel, by decide +kernel⟩
  have hapart : TextsApart (logPieces agentLogLib turnLog) := by
    rw [logPieces_turnLog]
    exact ⟨by decide +kernel, by decide +kernel⟩
  exact (parseAgentJSONL_oneEach_iff agentLogLib turnLog hlog).2 hapart

def twiceLog : String := logOf [doneLine "message_end", doneLine "message_end"]

theorem logPieces_twiceLog :
    logPieces agentLogLib twiceLog =
      piecesFrom agentLogLib "" [.messageEnd doneMessage, .messageEnd doneMessage] := by
  rw [logPieces, twiceLog, logEvents_logOf (by simp [sampleLines]) (by simp)]
  rfl

/-- The second of two equal messages has no entry. -/
theorem equal_message_lost :
    WellFormedLog (logPieces agentLogLib twiceLog) ∧
      ¬ OneEach (logPieces agentLogLib twiceLog) (parseAgentJSONL agentLogLib twiceLog) := by
  rw [logPieces_twiceLog]
  refine ⟨⟨by decide +kernel, by decide +kernel⟩, ?_⟩
  rintro ⟨kept, hone, heq⟩
  have hlen := hone.length_eq
  have hentries := congrArg List.length heq
  rw [List.length_map, hlen] at hentries
  revert hentries
  decide +kernel

end Uncworks
