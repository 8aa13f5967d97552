import Uncworks.Go.Slice
import Uncworks.Kube.Api
import Uncworks.Paging.Cursor
import Uncworks.Server.Api

/-!
# Listing runs

`ListAgentRuns` sorts the AgentRuns by their creation time, newest first, filters them and cuts a
page out of the rest.  The cursor of a page is the name of its last run.
-/

namespace Uncworks

open Paging List

/-! ## `ListAgentRuns` -/

/-- An AgentRun as it is listed, with the parts of its metadata and spec that the filters read. -/
structure ListedRun where
  run : AgentRun
  creationTimestamp : ℕ := 0
  labels : List (String × String) := []
  parentRunID : String := ""
  stage : String := ""
  tags : List String := []

namespace ListedRun

def name (x : ListedRun) : String := x.run.name

def newer (a b : ListedRun) : Bool := b.creationTimestamp < a.creationTimestamp

/-- `client.MatchingLabels` for one label; an empty value does not filter. -/
def hasLabel (x : ListedRun) (key value : String) : Bool :=
  value = "" || x.labels.lookup key = some value

end ListedRun

structure ListAgentRunsRequest where
  phaseFilter : ProtoPhase := .unspecified
  limit : ℤ := 0
  cursor : String := ""
  specRunId : String := ""
  parentRunId : String := ""
  stageFilter : String := ""
  projectFilter : String := ""
  featureFilter : String := ""
  tagFilter : String := ""
  includeArchived : Bool := false

structure ListAgentRunsResponse where
  agentRuns : List ListedRun
  nextCursor : String

namespace ListAgentRunsRequest

def invalid (lib : Go.Lib) (req : ListAgentRunsRequest) : Option ApiError :=
  if 100 < req.limit then
    some ⟨.invalidArgument, s!"invalid input: limit must be between 0 and 100, got {req.limit}"⟩
  else if 64 < req.tagFilter.utf8ByteSize then
    some ⟨.invalidArgument, s!"invalid input: tag_filter must be at most 64 characters, got " ++
      toString req.tagFilter.utf8ByteSize⟩
  else if 128 < req.featureFilter.utf8ByteSize then
    some ⟨.invalidArgument, s!"invalid input: feature_filter must be at most 128 characters, got " ++
      toString req.featureFilter.utf8ByteSize⟩
  else if 128 < req.projectFilter.utf8ByteSize then
    some ⟨.invalidArgument, s!"invalid input: project_filter must be at most 128 characters, got " ++
      toString req.projectFilter.utf8ByteSize⟩
  else if req.parentRunId ≠ "" ∧ !validRunID req.parentRunId then
    some ⟨.invalidArgument, "invalid parent_run_id: invalid input: invalid run ID format: " ++
      lib.quote req.parentRunId⟩
  else none

section

variable (req : ListAgentRunsRequest) (x : ListedRun)

def selects : Bool :=
  x.hasLabel "aot.uncworks.io/spec-run-id" req.specRunId &&
    x.hasLabel "aot.uncworks.io/project" req.projectFilter &&
    x.hasLabel "aot.uncworks.io/feature" req.featureFilter

def accepts : Bool :=
  !(x.run.status.archived && !req.includeArchived) &&
    !(req.phaseFilter ≠ .unspecified && listedPhase x.run ≠ req.phaseFilter) &&
    !(req.parentRunId ≠ "" && x.parentRunID ≠ req.parentRunId) &&
    !(req.stageFilter ≠ "" && x.stage ≠ req.stageFilter) &&
    (req.tagFilter = "" || x.tags.contains req.tagFilter)

def matches_ : Bool := req.selects x && req.accepts x

def pageSize : ℕ :=
  if req.limit ≤ 0 ∨ 100 < req.limit then 50 else req.limit.toNat

end

end ListAgentRunsRequest

def allRuns (sort : Go.SliceSort ListedRun.newer) (req : ListAgentRunsRequest)
    (items : List ListedRun) : List ListedRun :=
  (sort.sort (items.filter req.selects)).filter req.accepts

def skipCursor (cursor : String) (runs : List ListedRun) : List ListedRun :=
  if cursor = "" then runs
  else match runs.findIdx? fun r => r.name = cursor with
    | some i => runs.drop (i + 1)
    | none => runs

def cutPage (pageSize : ℕ) (page : List ListedRun) : ListAgentRunsResponse :=
  if pageSize < page.length then
    { agentRuns := page.take pageSize
      nextCursor := (page[pageSize - 1]?.map ListedRun.name).getD "" }
  else { agentRuns := page, nextCursor := "" }

def listAgentRuns (lib : Go.Lib) (sort : Go.SliceSort ListedRun.newer) (req : ListAgentRunsRequest)
    (list : Except Kube.Error (List ListedRun)) : Except ApiError ListAgentRunsResponse :=
  match req.invalid lib with
  | some e => .error e
  | none => match list with
    | .error e => .error ⟨.internal, "list agentruns: " ++ e.text⟩
    | .ok items => .ok (cutPage req.pageSize (skipCursor req.cursor (allRuns sort req items)))

/-! ## Following the cursor -/

structure PageWalk where
  cursor : String := ""
  returned : List ListedRun := []
  finished : Bool := false

structure Snapshot where
  items : List ListedRun
  named : ∀ x ∈ items, x.name ≠ ""
  distinct : (items.map ListedRun.name).Nodup

section Walk

variable (lib : Go.Lib) (sort : Go.SliceSort ListedRun.newer) (req : ListAgentRunsRequest)

def PageWalk.next (items : List ListedRun) (w : PageWalk) : PageWalk :=
  if w.finished then w
  else match listAgentRuns lib sort { req with cursor := w.cursor } (.ok items) with
    | .error _ => { w with finished := true }
    | .ok page =>
      { cursor := page.nextCursor, returned := w.returned ++ page.agentRuns
        finished := page.nextCursor = "" }

def pageWalk (snaps : ℕ → Snapshot) : ℕ → PageWalk
  | 0 => {}
  | n + 1 => (pageWalk snaps n).next lib sort req (snaps n).items

/-- The walk ends, and the runs that exist and match at each of its requests are returned once. -/
def WalkComplete (snaps : ℕ → Snapshot) : Prop :=
  ∃ n, (pageWalk lib sort req snaps (n + 1)).finished ∧
    (pageWalk lib sort req snaps n).finished = false ∧
    ∀ name created, (∀ m ≤ n, ∃ x ∈ (snaps m).items,
        x.name = name ∧ x.creationTimestamp = created ∧ req.matches_ x) →
      ((pageWalk lib sort req snaps (n + 1)).returned.map ListedRun.name).count name = 1

/-- The run that the last page ended with still matches, and no other one was created in its second.
-/
def CursorKept (w : PageWalk) (snap : Snapshot) : Prop :=
  ∀ c ∈ w.returned.getLast?,
    (∃ x ∈ snap.items, req.matches_ x ∧ x.name = c.name ∧
      x.creationTimestamp = c.creationTimestamp) ∧
    ∀ y ∈ snap.items, req.matches_ y → y.creationTimestamp = c.creationTimestamp → y.name = c.name

end Walk

variable {lib : Go.Lib} {sort : Go.SliceSort ListedRun.newer} {req : ListAgentRunsRequest}

theorem mem_allRuns {items x} : x ∈ allRuns sort req items ↔ x ∈ items ∧ req.matches_ x := by
  rw [allRuns, mem_filter, (sort.perm _).mem_iff, mem_filter, and_assoc,
    ListAgentRunsRequest.matches_, Bool.and_eq_true]

theorem listing_allRuns (snap : Snapshot) :
    Listing ListedRun.name ListedRun.creationTimestamp (allRuns sort req snap.items) := by
  constructor
  · refine ((sort.sorted _).sublist (filter_sublist)).imp fun h => ?_
    simpa [ListedRun.newer] using h
  · have hsorted : ((sort.sort (snap.items.filter req.selects)).map ListedRun.name).Nodup :=
      ((sort.perm _).map _).nodup_iff.2 (snap.distinct.sublist (filter_sublist.map _))
    exact hsorted.sublist (filter_sublist.map _)

theorem ListAgentRunsRequest.pageSize_pos (req : ListAgentRunsRequest) : 0 < req.pageSize := by
  unfold pageSize
  split
  · decide
  · omega

/-- The pages of `ListAgentRuns` are those of a walk along the cursors. -/
structure Follows (p : PageWalk) (w : Walk ListedRun) : Prop where
  returned : p.returned = w.returned
  finished : p.finished = w.finished
  cursor : p.finished = false → p.cursor = (w.cursor ListedRun.name).getD ""
  named : ∀ x ∈ p.returned, x.name ≠ ""

theorem skipCursor_eq {cursor} (h : ∀ c ∈ cursor, c ≠ "") (l : List ListedRun) :
    skipCursor (cursor.getD "") l = after ListedRun.name cursor l := by
  cases cursor with
  | none => rfl
  | some c => exact if_neg (h c rfl)

theorem cutPage_agentRuns (size : ℕ) (l : List ListedRun) :
    (cutPage size l).agentRuns = l.take size := by
  unfold cutPage
  split
  · rfl
  · rename_i h
    exact (take_of_length_le (Nat.le_of_not_lt h)).symm

theorem cutPage_nextCursor {size l} (hsize : 0 < size) (hmore : size < l.length) :
    ∃ c ∈ l, (l.take size).getLast? = some c ∧ (cutPage size l).nextCursor = c.name := by
  have hlt : size - 1 < l.length := by omega
  refine ⟨l[size - 1], getElem_mem hlt, ?_, ?_⟩
  · rw [getLast?_eq_getElem?, length_take, Nat.min_eq_left (by omega),
      getElem?_take_of_lt (by omega), getElem?_eq_getElem hlt]
  · rw [cutPage, if_pos hmore, getElem?_eq_getElem hlt]
    rfl

theorem cutPage_nextCursor_eq_empty {size l} (hsize : 0 < size) (hnamed : ∀ x ∈ l, x.name ≠ "") :
    (cutPage size l).nextCursor = "" ↔ l.length ≤ size := by
  constructor
  · intro h
    by_contra hmore
    obtain ⟨c, hc, -, hcursor⟩ := cutPage_nextCursor hsize (Nat.lt_of_not_le hmore)
    exact hnamed c hc (hcursor.symm.trans h)
  · intro h
    rw [cutPage, if_neg (Nat.not_lt.2 h)]

variable {snap : Snapshot} {p : PageWalk} {w : Walk ListedRun}

theorem Follows.listAgentRuns (h : Follows p w) (hf : p.finished = false)
    (hreq : req.invalid lib = none) (items : List ListedRun) :
    listAgentRuns lib sort { req with cursor := p.cursor } (.ok items) =
      .ok (cutPage req.pageSize
        (after ListedRun.name (w.cursor ListedRun.name) (allRuns sort req items))) := by
  have hnamed : ∀ c ∈ w.cursor ListedRun.name, c ≠ "" := by
    intro c hc
    obtain ⟨x, hx, rfl⟩ := Option.map_eq_some_iff.1 hc
    exact h.named x (h.returned ▸ mem_of_getLast? hx)
  rw [← skipCursor_eq hnamed, ← h.cursor hf]
  unfold Uncworks.listAgentRuns
  rw [show ({ req with cursor := p.cursor } : ListAgentRunsRequest).invalid lib = none from hreq]
  rfl

theorem Follows.next (h : Follows p w) (hreq : req.invalid lib = none) :
    Follows (p.next lib sort req snap.items)
      (w.next ListedRun.name req.pageSize (allRuns sort req snap.items)) := by
  by_cases hf : w.finished
  · rw [PageWalk.next, if_pos (h.finished.trans hf), Walk.next, if_pos hf]
    exact h
  · have hf : w.finished = false := by simpa using hf
    have hpf := h.finished.trans hf
    rw [PageWalk.next, hpf, if_neg Bool.false_ne_true, h.listAgentRuns hpf hreq, Walk.next,
      hf,
      if_neg Bool.false_ne_true]
    have hsub : (after ListedRun.name (w.cursor ListedRun.name)
        (allRuns sort req snap.items)).Sublist (allRuns sort req snap.items) :=
      after_sublist _ _
    generalize after ListedRun.name (w.cursor ListedRun.name) (allRuns sort req snap.items) =
      rest at hsub ⊢
    have hnamed : ∀ x ∈ rest, x.name ≠ "" := fun x hx =>
      snap.named x (mem_allRuns.1 (hsub.subset hx)).1
    refine ⟨?_, ?_, ?_, ?_⟩
    · show p.returned ++ (cutPage req.pageSize rest).agentRuns = w.returned ++ rest.take req.pageSize
      rw [cutPage_agentRuns, h.returned]
    · exact decide_eq_decide.2 (cutPage_nextCursor_eq_empty req.pageSize_pos hnamed)
    · intro hmore
      have hlt := Nat.lt_of_not_le fun hle =>
        of_decide_eq_false hmore ((cutPage_nextCursor_eq_empty req.pageSize_pos hnamed).2 hle)
      obtain ⟨c, -, hlast, hcursor⟩ := cutPage_nextCursor req.pageSize_pos hlt
      show (cutPage req.pageSize rest).nextCursor = _
      rw [hcursor, Walk.cursor, getLast?_append, hlast]
      rfl
    · intro x hx
      rcases mem_append.1 hx with hx | hx
      · exact h.named x hx
      · rw [cutPage_agentRuns] at hx
        exact hnamed x (mem_of_mem_take hx)

theorem follows_pageWalk (hreq : req.invalid lib = none) (snaps : ℕ → Snapshot) (n : ℕ) :
    Follows (pageWalk lib sort req snaps n)
      (Walk.run ListedRun.name req.pageSize (fun m => allRuns sort req (snaps m).items)
        n) := by
  induction n with
  | zero => exact ⟨rfl, rfl, fun _ => rfl, fun _ hx => nomatch hx⟩
  | succ n ih => exact ih.next hreq

/-- If the run that each page ends with is still listed at the next request, and no other one of its
second is, the walk is complete. -/
theorem walkComplete_of_cursorKept (hreq : req.invalid lib = none) (snaps : ℕ → Snapshot)
    (hkept : ∀ n, (pageWalk lib sort req snaps n).finished = false →
      CursorKept req (pageWalk lib sort req snaps n) (snaps n)) :
    WalkComplete lib sort req snaps := by
  have hfollows n : Follows (pageWalk lib sort req snaps n) (Paging.Walk.run ListedRun.name
      req.pageSize (fun m => allRuns sort req (snaps m).items) n) := follows_pageWalk hreq snaps n
  have hlisting n : Paging.Listing ListedRun.name ListedRun.creationTimestamp
      (allRuns sort req (snaps n).items) := listing_allRuns (snaps n)
  obtain ⟨n, hdone, hlast, hcount⟩ := Paging.Walk.complete req.pageSize_pos hlisting fun n hf => by
    intro c hc
    rw [← (hfollows n).returned] at hc
    obtain ⟨⟨x, hx, hmatch, hname, hkey⟩, hunique⟩ := hkept n ((hfollows n).finished.trans hf) c hc
    refine ⟨⟨x, mem_allRuns.2 ⟨hx, hmatch⟩, hname, hkey⟩, fun y hy => ?_⟩
    exact hunique y (mem_allRuns.1 hy).1 (mem_allRuns.1 hy).2
  refine ⟨n, (hfollows _).finished.trans hdone, (hfollows n).finished.trans hlast, ?_⟩
  intro name created hsteady
  rw [(hfollows (n + 1)).returned]
  refine hcount name created fun m hm => ?_
  obtain ⟨x, hx, hname, hkey, hmatch⟩ := hsteady m hm
  exact ⟨x, mem_allRuns.2 ⟨hx, hmatch⟩, hname, hkey⟩

theorem pageWalk_finished_succ {snaps n} (h : (pageWalk lib sort req snaps n).finished) :
    (pageWalk lib sort req snaps (n + 1)).finished := by
  rw [pageWalk, PageWalk.next, if_pos h]
  exact h

theorem pageWalk_finished_of_le {snaps m n} (hle : m ≤ n)
    (h : (pageWalk lib sort req snaps m).finished) : (pageWalk lib sort req snaps n).finished := by
  induction hle with
  | refl => exact h
  | step _ ih => exact pageWalk_finished_succ ih

theorem last_request_unique {snaps m n} (hm : (pageWalk lib sort req snaps m).finished = false)
    (hm' : (pageWalk lib sort req snaps (m + 1)).finished)
    (hn : (pageWalk lib sort req snaps n).finished = false)
    (hn' : (pageWalk lib sort req snaps (n + 1)).finished) : n = m := by
  have hmn : ¬ m + 1 ≤ n := fun h => by simp [pageWalk_finished_of_le h hm'] at hn
  have hnm : ¬ n + 1 ≤ m := fun h => by simp [pageWalk_finished_of_le h hn'] at hm
  omega

def stableSort : Go.SliceSort ListedRun.newer := Go.SliceSort.stable ListedRun.creationTimestamp

def listedAt (name : String) (creationTimestamp : ℕ) : ListedRun :=
  { run := { name }, creationTimestamp }

def steadySnap : Snapshot where
  items := [listedAt "ar-aaaa" 1, listedAt "ar-cccc" 3, listedAt "ar-bbbb" 2]
  named := by decide
  distinct := by decide

/-- Two pages of three runs that stay as they are. -/
theorem walkComplete_steady :
    WalkComplete sampleEnv.toLib stableSort { limit := 2 } fun _ => steadySnap := by
  refine walkComplete_of_cursorKept rfl _ fun n hf => ?_
  match n with
  | 0 => exact fun c hc => nomatch hc
  | 1 =>
    intro c hc
    obtain rfl : listedAt "ar-bbbb" 2 = c := Option.some.inj hc
    exact ⟨by decide, by decide⟩
  | n + 2 =>
    have hdone :
        (pageWalk sampleEnv.toLib stableSort { limit := 2 } (fun _ => steadySnap) 2).finished := by
      decide
    exact absurd (pageWalk_finished_of_le (Nat.le_add_left 2 n) hdone) (by simp [hf])

/-! ## Walks that are not complete -/

def deletedSnaps : ℕ → Snapshot
  | 0 => { items := [listedAt "ar-dddd" 4, listedAt "ar-cccc" 3, listedAt "ar-bbbb" 2,
            listedAt "ar-aaaa" 1]
           named := by decide, distinct := by decide }
  | _ + 1 => { items := [listedAt "ar-dddd" 4, listedAt "ar-bbbb" 2, listedAt "ar-aaaa" 1]
               named := by decide, distinct := by decide }

def swappedSnaps : ℕ → Snapshot
  | 0 => { items := [listedAt "ar-bbbb" 1, listedAt "ar-aaaa" 1]
           named := by decide, distinct := by decide }
  | _ + 1 => { items := [listedAt "ar-aaaa" 1, listedAt "ar-bbbb" 1]
               named := by decide, distinct := by decide }

/-- A walk whose cursor is deleted returns a run twice, and one over runs of the same second misses
a run. -/
theorem listAgentRuns_walk_incomplete :
    ¬ WalkComplete sampleEnv.toLib stableSort { limit := 2 } deletedSnaps ∧
    ¬ WalkComplete sampleEnv.toLib stableSort { limit := 1 } swappedSnaps := by
  constructor
  · rintro ⟨n, hdone, hlast, hcount⟩
    obtain rfl : n = 2 := last_request_unique (by decide) (by decide) hlast hdone
    have htwice := hcount "ar-dddd" 4 (by decide)
    revert htwice
    decide
  · rintro ⟨n, hdone, hlast, hcount⟩
    obtain rfl : n = 1 := last_request_unique (by decide) (by decide) hlast hdone
    have hmissed := hcount "ar-aaaa" 1 (by decide)
    revert hmissed
    decide

end Uncworks
