import Uncworks.Go.Strings
import Uncworks.Knowledge.Store

/-!
# Trace spans

The workflow (`WriteTraceSpan`) and the sidecar (`appendTraceSpan`) write one line of JSON per span
to `spans.jsonl`, when it is opened and again when it is closed.  `PersistRunData` looks for the
keys `parent_id`, `start_time` and `end_time`, which no writer uses, keeps all lines, and stops at
the first one of 64 KiB.

What `encoding/json` and `time` make of texts is a parameter (`SpanLib`).
-/

namespace Uncworks

/-! ## JSON -/

inductive JsonValue where
  | text (s : String)
  | flag (b : Bool)
  /-- A nested object, as it was written. -/
  | object (raw : String)
  deriving DecidableEq

abbrev JsonObject := List (String × JsonValue)

/-- The functions of `encoding/json` and `time` for objects and for times in `RFC3339Nano`. -/
structure SpanLib where
  marshal : JsonObject → String
  unmarshal : String → Option JsonObject
  formatTime : ℕ → String
  parseTime : String → Option ℕ

/-- `json.Unmarshal` does not distinguish upper and lower case in keys. -/
def sameKey (a b : String) : Bool := a.toList.map Char.toLower = b.toList.map Char.toLower

def JsonObject.get (o : JsonObject) (key : String) : Option JsonValue :=
  (o.reverse.find? fun field => sameKey field.1 key).map Prod.snd

def textField : Option JsonValue → Option String
  | none => some ""
  | some (.text s) => some s
  | some _ => none

def flagField : Option JsonValue → Option Bool
  | none => some false
  | some (.flag b) => some b
  | some _ => none

def objectField : Option JsonValue → Option (Option String)
  | none => some none
  | some (.object raw) => some (some raw)
  | some _ => none

/-- The object that `json.Marshal` writes for the fields of a struct; those that are omitted have no
value. -/
def presentFields (fields : List (String × Option JsonValue)) : JsonObject :=
  fields.filterMap fun field => field.2.map (field.1, ·)

def omitempty (s : String) : Option JsonValue := if s = "" then none else some (.text s)

/-! ## Writing spans -/

structure StageSpan where
  id : String
  traceID : String := ""
  parentID : String := ""
  name : String
  type : String
  startTime : String
  endTime : String := ""
  status : String := ""
  metadata : Option String := none
  hasDiff : Bool := false

def StageSpan.json (d : StageSpan) : JsonObject :=
  presentFields
    [("id", some (.text d.id)), ("traceId", omitempty d.traceID), ("parentId", omitempty d.parentID),
      ("name", some (.text d.name)), ("type", some (.text d.type)),
      ("startTime", some (.text d.startTime)), ("endTime", omitempty d.endTime),
      ("status", omitempty d.status), ("metadata", d.metadata.map .object),
      ("hasDiff", some (.flag d.hasDiff))]

structure SidecarSpan where
  id : String
  traceID : String := ""
  parentID : String := ""
  name : String
  type : String
  startTime : ℕ
  endTime : ℕ
  status : String := ""
  metadata : Option String := none
  hasDiff : Bool := false
  diff : Option String := none

def SidecarSpan.json (lib : SpanLib) (d : SidecarSpan) : JsonObject :=
  presentFields
    [("id", some (.text d.id)), ("traceId", omitempty d.traceID), ("parentId", omitempty d.parentID),
      ("name", some (.text d.name)), ("type", some (.text d.type)),
      ("startTime", some (.text (lib.formatTime d.startTime))),
      ("endTime", some (.text (lib.formatTime d.endTime))), ("status", omitempty d.status),
      ("metadata", d.metadata.map .object), ("hasDiff", some (.flag d.hasDiff)),
      ("diff", d.diff.map .object)]

inductive SpanLine where
  | workflow (d : StageSpan)
  | sidecar (d : SidecarSpan)

open SpanLine

def SpanLine.json (lib : SpanLib) : SpanLine → JsonObject
  | workflow d => d.json
  | sidecar d => d.json lib

section

variable (lib : SpanLib)

def spansFile (lines : List SpanLine) : String :=
  Go.joinLines (lines.map fun line => lib.marshal (line.json lib))

/-! ## `readSpansFile` -/

structure TraceSpan where
  id : String
  traceID : String
  parentID : String
  name : String
  type : String
  startTime : String
  endTime : String
  status : String
  metadata : Option String
  hasDiff : Bool
  diff : Option String
  deriving DecidableEq

def decodeTraceSpan (o : JsonObject) : Option TraceSpan := do
  return {
    id := ← textField (o.get "id")
    traceID := ← textField (o.get "traceId")
    parentID := ← textField (o.get "parentId")
    name := ← textField (o.get "name")
    type := ← textField (o.get "type")
    startTime := ← textField (o.get "startTime")
    endTime := ← textField (o.get "endTime")
    status := ← textField (o.get "status")
    metadata := ← objectField (o.get "metadata")
    hasDiff := ← flagField (o.get "hasDiff")
    diff := ← objectField (o.get "diff") }

structure SpanTable where
  byID : String → Option ℕ := fun _ => none
  spans : List TraceSpan := []

def SpanTable.add (t : SpanTable) (span : TraceSpan) : SpanTable :=
  match t.byID span.id with
  | some i => { t with spans := t.spans.set i span }
  | none =>
    { byID := fun k => if k = span.id then some t.spans.length else t.byID k
      spans := t.spans ++ [span] }

/-- `readSpansFile`, with the text of the file; lines may have up to 1 MiB. -/
def readSpansFile (text : String) : List TraceSpan × Option String :=
  let scan := Go.scanLines (1024 * 1024) text
  let decoded := (scan.tokens.filter (· ≠ "")).filterMap fun line =>
    (lib.unmarshal line).bind decodeTraceSpan
  ((decoded.foldl SpanTable.add {}).spans,
    if scan.tooLong then some "scan spans file: bufio.Scanner: token too long" else none)

/-! ## The spans of `PersistRunData` -/

structure RawSpan where
  name : String
  type : String
  parentID : String
  startTime : String
  endTime : String
  metadata : Option String

def decodeRawSpan (o : JsonObject) : Option RawSpan := do
  return {
    name := ← textField (o.get "name")
    type := ← textField (o.get "type")
    parentID := ← textField (o.get "parent_id")
    startTime := ← textField (o.get "start_time")
    endTime := ← textField (o.get "end_time")
    metadata := ← objectField (o.get "metadata") }

def RawSpan.toBrain (now : ℕ) (raw : RawSpan) : BrainSpan where
  name := raw.name
  type := raw.type
  parentID := raw.parentID
  startTime := (lib.parseTime raw.startTime).getD now
  endTime := if raw.endTime = "" then none else lib.parseTime raw.endTime
  metadata := raw.metadata

/-- The spans that `PersistRunData` saves for the text of the file; `clock` is the time at which the
`i`-th line is decoded. -/
def persistedSpans (clock : ℕ → ℕ) (text : String) : List BrainSpan :=
  let lines := (Go.scanLines Go.maxScanTokenSize text).tokens.filter (· ≠ "")
  (lines.filterMap fun line => (lib.unmarshal line).bind decodeRawSpan).mapIdx fun i raw =>
    raw.toBrain lib (clock i)

/-! ## What is read of a written line -/

theorem get_presentFields_nil (key : String) : JsonObject.get (presentFields []) key = none := rfl

theorem get_presentFields_cons (field : String × Option JsonValue)
    (fields : List (String × Option JsonValue)) (key : String) :
    JsonObject.get (presentFields (field :: fields)) key =
      (JsonObject.get (presentFields fields) key).or
        (if sameKey field.1 key then field.2 else none) := by
  obtain ⟨name, value⟩ := field
  cases value with
  | none => simp [presentFields]
  | some v =>
    have hcons : presentFields ((name, some v) :: fields) = (name, v) :: presentFields fields := rfl
    rw [hcons, JsonObject.get, List.reverse_cons, List.find?_append, Option.map_or]
    by_cases h : sameKey name key <;> simp [JsonObject.get]

@[simp] theorem textField_none : textField none = some "" := rfl

@[simp] theorem textField_text (s : String) : textField (some (.text s)) = some s := rfl

@[simp] theorem flagField_flag (b : Bool) : flagField (some (.flag b)) = some b := rfl

@[simp] theorem objectField_none : objectField none = some none := rfl

@[simp] theorem textField_omitempty (s : String) : textField (omitempty s) = some s := by
  unfold omitempty
  split
  · rename_i h
    rw [h]
    rfl
  · rfl

@[simp] theorem objectField_map (raw : Option String) :
    objectField (raw.map .object) = some raw := by
  cases raw <;> rfl

def SpanLine.span : SpanLine → TraceSpan
  | workflow d =>
    { id := d.id, traceID := d.traceID, parentID := d.parentID, name := d.name, type := d.type
      startTime := d.startTime, endTime := d.endTime, status := d.status, metadata := d.metadata
      hasDiff := d.hasDiff, diff := none }
  | sidecar d =>
    { id := d.id, traceID := d.traceID, parentID := d.parentID, name := d.name, type := d.type
      startTime := lib.formatTime d.startTime, endTime := lib.formatTime d.endTime
      status := d.status, metadata := d.metadata, hasDiff := d.hasDiff, diff := d.diff }

theorem decodeTraceSpan_json (line : SpanLine) :
    decodeTraceSpan (line.json lib) = some (line.span lib) := by
  cases line with
  | workflow d =>
    simp [decodeTraceSpan, json, StageSpan.json, span, get_presentFields_nil,
      get_presentFields_cons, sameKey]
  | sidecar d =>
    simp [decodeTraceSpan, json, SidecarSpan.json, span, get_presentFields_nil,
      get_presentFields_cons, sameKey]

theorem decodeRawSpan_json (line : SpanLine) :
    decodeRawSpan (line.json lib) = some
      { name := (line.span lib).name, type := (line.span lib).type, parentID := "", startTime := ""
        endTime := "", metadata := (line.span lib).metadata } := by
  cases line with
  | workflow d =>
    simp [decodeRawSpan, json, StageSpan.json, span, get_presentFields_nil,
      get_presentFields_cons, sameKey]
  | sidecar d =>
    simp [decodeRawSpan, json, SidecarSpan.json, span, get_presentFields_nil,
      get_presentFields_cons, sameKey]

end

/-! ## The last line of each span -/

/-- One span per id, in the order in which the ids first occur, each as it occurs last. -/
structure Latest (written out : List TraceSpan) : Prop where
  nodup : (out.map TraceSpan.id).Nodup
  ids : out.map TraceSpan.id = (written.map TraceSpan.id).eraseDups
  last : ∀ x ∈ out, ∃ before after, written = before ++ x :: after ∧ ∀ y ∈ after, y.id ≠ x.id

structure SpanTable.Holds (t : SpanTable) (written : List TraceSpan) : Prop where
  latest : Latest written t.spans
  byID (k : String) : t.byID k = (t.spans.map TraceSpan.id).findIdx? fun i => i = k

variable {written out : List TraceSpan} {t : SpanTable}

theorem Latest.mem_ids (h : Latest written out) {k} :
    k ∈ out.map TraceSpan.id ↔ k ∈ written.map TraceSpan.id := by
  rw [h.ids, List.mem_eraseDups]

theorem Latest.replace (h : Latest written out) {span i} (hi : i < out.length)
    (hid : out[i].id = span.id) :
    (out.set i span).map TraceSpan.id = out.map TraceSpan.id ∧
      Latest (written ++ [span]) (out.set i span) := by
  have hids : (out.set i span).map TraceSpan.id = out.map TraceSpan.id :=
    calc (out.set i span).map TraceSpan.id = (out.map TraceSpan.id).set i span.id := List.map_set
      _ = (out.map TraceSpan.id).set i out[i].id := by rw [hid]
      _ = (out.set i out[i]).map TraceSpan.id := List.map_set.symm
      _ = out.map TraceSpan.id := by rw [List.set_getElem_self]
  have hold : span.id ∈ written.map TraceSpan.id :=
    h.mem_ids.1 (hid ▸ List.mem_map_of_mem (List.getElem_mem hi))
  refine ⟨hids, hids ▸ h.nodup, ?_, fun x hx => ?_⟩
  · rw [hids, h.ids, List.map_append, List.eraseDups_append]
    simp [List.removeAll, List.mem_map.1 hold]
  · obtain ⟨j, hj, rfl⟩ := List.getElem_of_mem hx
    rw [List.length_set] at hj
    by_cases hij : i = j
    · subst hij
      rw [List.getElem_set_self]
      exact ⟨written, [], rfl, fun y hy => nomatch hy⟩
    · rw [List.getElem_set_ne hij]
      have hne : span.id ≠ out[j].id := fun heq =>
        hij <| h.nodup.of_map.getElem_inj_iff.1 <| List.inj_on_of_nodup_map h.nodup
          (List.getElem_mem hi) (List.getElem_mem hj) (hid.trans heq)
      obtain ⟨before, after, hsplit, hafter⟩ := h.last _ (List.getElem_mem hj)
      refine ⟨before, after ++ [span], by simp [hsplit], ?_⟩
      exact List.forall_mem_append.2 ⟨hafter, fun y hy => List.eq_of_mem_singleton hy ▸ hne⟩

theorem Latest.append (h : Latest written out) {span} (hnew : span.id ∉ out.map TraceSpan.id) :
    Latest (written ++ [span]) (out ++ [span]) := by
  have hnew' : span.id ∉ written.map TraceSpan.id := fun hmem => hnew (h.mem_ids.2 hmem)
  refine ⟨nodup_map_append h.nodup hnew, ?_, fun x hx => ?_⟩
  · rw [List.map_append, List.map_append, List.eraseDups_append, h.ids]
    simp only [List.map_cons, List.removeAll]
    rw [List.filter_cons_of_pos (by simpa using hnew')]
    rfl
  · rcases List.mem_append.1 hx with hx | hx
    · obtain ⟨before, after, hsplit, hafter⟩ := h.last x hx
      have hne : span.id ≠ x.id := fun heq => hnew (heq ▸ List.mem_map_of_mem hx)
      refine ⟨before, after ++ [span], by simp [hsplit], ?_⟩
      exact List.forall_mem_append.2 ⟨hafter, fun y hy => List.eq_of_mem_singleton hy ▸ hne⟩
    · rw [List.eq_of_mem_singleton hx]
      exact ⟨written, [], rfl, fun y hy => nomatch hy⟩

theorem SpanTable.Holds.add (h : t.Holds written) (span : TraceSpan) :
    (t.add span).Holds (written ++ [span]) := by
  unfold SpanTable.add
  have hidx := h.byID span.id
  cases hfound : t.byID span.id with
  | some i =>
    rw [hfound, eq_comm, List.findIdx?_eq_some_iff_getElem] at hidx
    obtain ⟨hi, hid, -⟩ := hidx
    rw [List.length_map] at hi
    obtain ⟨hids, hlatest⟩ := h.latest.replace hi (by simpa using hid)
    exact ⟨hlatest, fun k => (h.byID k).trans (by rw [hids])⟩
  | none =>
    rw [hfound, eq_comm, List.findIdx?_eq_none_iff] at hidx
    have hnew : span.id ∉ t.spans.map TraceSpan.id := fun hmem => by simpa using hidx _ hmem
    refine ⟨h.latest.append hnew, fun k => ?_⟩
    rw [List.map_append, List.findIdx?_append, ← h.byID k]
    by_cases hk : k = span.id
    · subst hk
      simp [hfound]
    · simp [hk, Ne.symm hk]

theorem holds_foldl (spans : List TraceSpan) (h : t.Holds written) :
    (spans.foldl SpanTable.add t).Holds (written ++ spans) := by
  induction spans generalizing t written with
  | nil => simpa using h
  | cons span spans ih =>
    have hrest := ih (h.add span)
    rwa [List.append_assoc] at hrest

theorem holds_empty : SpanTable.Holds {} [] where
  latest := ⟨List.nodup_nil, rfl, fun _ hx => nomatch hx⟩
  byID _ := rfl

/-- What `encoding/json` does with the lines of a file: it writes each on a line of its own, and
reads what it has written. -/
structure SpanLib.Codes (lib : SpanLib) (lines : List SpanLine) : Prop where
  newline : ∀ line ∈ lines, '\n' ∉ (lib.marshal (line.json lib)).toList
  carriage : ∀ line ∈ lines, '\r' ∉ (lib.marshal (line.json lib)).toList
  nonempty : ∀ line ∈ lines, lib.marshal (line.json lib) ≠ ""
  unmarshal : ∀ line ∈ lines, lib.unmarshal (lib.marshal (line.json lib)) = some (line.json lib)

def SpanLine.size (lib : SpanLib) (line : SpanLine) : ℕ :=
  (lib.marshal (line.json lib)).utf8ByteSize

section Reading

variable {lib : SpanLib} {lines : List SpanLine} (h : lib.Codes lines)

include h

theorem scan_spansFile (buffer : ℕ) :
    Go.scanLines buffer (spansFile lib lines) =
      { tokens := (lines.takeWhile fun line => line.size lib < buffer).map fun line =>
          lib.marshal (line.json lib)
        tooLong := !lines.all fun line => line.size lib < buffer } := by
  rw [spansFile, Go.scanLines_joinLines (by simpa using h.newline) (by simpa using h.carriage)]
  rw [List.takeWhile_map, List.all_map]
  rfl

theorem decode_scanned {α : Type*} {decode} {read : SpanLine → α}
    (hread : ∀ line, decode (line.json lib) = some (read line)) (buffer : ℕ) :
    ((Go.scanLines buffer (spansFile lib lines)).tokens.filter (· ≠ "")).filterMap
        (fun line => (lib.unmarshal line).bind decode) =
      (lines.takeWhile fun line => line.size lib < buffer).map read := by
  have hsub : ∀ line ∈ lines.takeWhile fun line => line.size lib < buffer, line ∈ lines :=
    fun line hline => (List.takeWhile_sublist _).subset hline
  rw [scan_spansFile h, List.filter_eq_self.2, List.filterMap_map]
  · rw [← List.filterMap_eq_map]
    refine List.filterMap_congr fun line hline => ?_
    simp [h.unmarshal line (hsub line hline), hread line]
  · intro text htext
    obtain ⟨line, hline, rfl⟩ := List.mem_map.1 htext
    simpa using h.nonempty line (hsub line hline)

theorem readSpansFile_latest (hshort : ∀ line ∈ lines, line.size lib < 1024 * 1024) :
    ∃ out, readSpansFile lib (spansFile lib lines) = (out, none) ∧
      Latest (lines.map (span lib)) out := by
  have hall : lines.all (fun line => line.size lib < 1024 * 1024) := by simpa using hshort
  refine ⟨_, ?_, (holds_foldl (lines.map (span lib)) holds_empty).latest⟩
  rw [readSpansFile, decode_scanned h (decodeTraceSpan_json lib), scan_spansFile h, hall,
    List.takeWhile_eq_self_iff.2 (by simpa using hshort)]
  rfl

theorem persistedSpans_spansFile (hparse : lib.parseTime "" = none) (clock : ℕ → ℕ) :
    persistedSpans lib clock (spansFile lib lines) =
      (lines.takeWhile fun line => line.size lib < Go.maxScanTokenSize).mapIdx fun i line =>
        { name := (line.span lib).name, type := (line.span lib).type, startTime := clock i
          metadata := (line.span lib).metadata } := by
  rw [persistedSpans, decode_scanned h (decodeRawSpan_json lib)]
  refine List.ext_getElem? fun i => ?_
  simp [RawSpan.toBrain, hparse, Function.comp_def]

end Reading

/-! ## Saved and read spans -/

/-- A saved span has the name, type, parent and times of a span that was read. -/
structure SameSpan (lib : SpanLib) (saved : BrainSpan) (read : TraceSpan) : Prop where
  name : saved.name = read.name
  type : saved.type = read.type
  parentID : saved.parentID = read.parentID
  startTime : some saved.startTime = lib.parseTime read.startTime
  endTime : saved.endTime = if read.endTime = "" then none else lib.parseTime read.endTime

/-- The server returns the latest spans, and `PersistRunData` saves the same ones. -/
def SpansAgree (lib : SpanLib) (clock : ℕ → ℕ) (lines : List SpanLine) : Prop :=
  ∃ out, readSpansFile lib (spansFile lib lines) = (out, none) ∧
    Latest (lines.map (span lib)) out ∧
    List.Forall₂ (SameSpan lib) (persistedSpans lib clock (spansFile lib lines)) out

variable {lib : SpanLib} {lines : List SpanLine}

theorem startTime_of_persisted (h : lib.Codes lines) (hparse : lib.parseTime "" = none)
    {clock saved} (hsaved : (persistedSpans lib clock (spansFile lib lines)).head? = some saved) :
    saved.startTime = clock 0 := by
  rw [persistedSpans_spansFile h hparse, List.head?_eq_getElem?, List.getElem?_mapIdx] at hsaved
  obtain ⟨line, -, rfl⟩ := Option.map_eq_some_iff.1 hsaved
  rfl

theorem SpansAgree.startTime (h : lib.Codes lines) (hparse : lib.parseTime "" = none) {clock}
    (hagree : SpansAgree lib clock lines) (hlines : lines ≠ []) :
    ∃ x ∈ lines.map (span lib),
      (readSpansFile lib (spansFile lib lines)).1.head? = some x ∧
      lib.parseTime x.startTime = some (clock 0) := by
  obtain ⟨out, hread, hlatest, hsaved⟩ := hagree
  rw [hread]
  have hout : out ≠ [] := by
    intro hnil
    obtain ⟨line, rest, rfl⟩ := List.exists_cons_of_ne_nil hlines
    have hids := hlatest.ids
    rw [hnil, List.map_cons, List.map_cons, List.eraseDups_cons] at hids
    cases hids
  have hstart : ∀ b, (persistedSpans lib clock (spansFile lib lines)).head? = some b →
      b.startTime = clock 0 := fun _ => startTime_of_persisted h hparse
  generalize persistedSpans lib clock (spansFile lib lines) = saved at hsaved hstart
  cases hsaved with
  | nil => exact absurd rfl hout
  | cons hfirst _ =>
    obtain ⟨before, after, hsplit, -⟩ := hlatest.last _ List.mem_cons_self
    refine ⟨_, ?_, rfl, by rw [← hfirst.startTime, hstart _ rfl]⟩
    rw [hsplit]
    exact List.mem_append_right _ List.mem_cons_self

/-- The saved spans are those that the server reads, whenever they are saved, exactly if there are
none. -/
theorem spansAgree_iff (h : lib.Codes lines) (hparse : lib.parseTime "" = none) :
    (∀ clock, SpansAgree lib clock lines) ↔ lines = [] := by
  constructor
  · intro hagree
    by_contra hlines
    obtain ⟨x, -, hx, hzero⟩ := (hagree fun _ => 0).startTime h hparse hlines
    obtain ⟨y, -, hy, hone⟩ := (hagree fun _ => 1).startTime h hparse hlines
    obtain rfl : x = y := Option.some.inj (hx.symm.trans hy)
    rw [hzero] at hone
    cases hone
  · rintro rfl clock
    obtain ⟨out, hread, hlatest⟩ := readSpansFile_latest h fun _ hline => nomatch hline
    obtain rfl : out = [] := List.map_eq_nil_iff.1 hlatest.ids
    refine ⟨[], hread, hlatest, ?_⟩
    rw [persistedSpans_spansFile h hparse]
    exact .nil

def planOpened : StageSpan where
  id := "plan"
  parentID := "root"
  name := "PLAN"
  type := "stage"
  startTime := "10:00"

def planClosed : StageSpan := { planOpened with endTime := "10:05", status := "ok" }

def planLib : SpanLib where
  marshal o := if (o.get "endTime").isSome then "closed" else "opened"
  unmarshal text := some (if text = "closed" then planClosed.json else planOpened.json)
  formatTime _ := ""
  parseTime text := if text = "10:00" then some 600 else if text = "10:05" then some 605 else none

theorem planLib_codes : planLib.Codes [.workflow planOpened, .workflow planClosed] := by
  constructor <;> decide

/-- The two lines are not saved as one span. -/
theorem spansAgree_plan_iff :
    (∀ clock, SpansAgree planLib clock [.workflow planOpened, .workflow planClosed]) ↔
      [SpanLine.workflow planOpened, .workflow planClosed] = [] :=
  spansAgree_iff planLib_codes rfl

/-- Saved at 10:30, the PLAN stage starts at 10:30. -/
theorem plan_spans_disagree :
    ¬ SpansAgree planLib (fun _ => 630) [.workflow planOpened, .workflow planClosed] := by
  intro hagree
  obtain ⟨x, hx, -, hstart⟩ := hagree.startTime planLib_codes rfl (List.cons_ne_nil _ _)
  have hwritten : ∀ x ∈
      [SpanLine.workflow planOpened, .workflow planClosed].map (SpanLine.span planLib),
      planLib.parseTime x.startTime = some 600 := by decide
  rw [hwritten x hx] at hstart
  cases hstart

end Uncworks
