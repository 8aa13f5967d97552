import Mathlib.Tactic.NormNum
import Uncworks.Go.Slice
import Uncworks.Ranking.Top

/-!
# Search in the knowledge base

`SearchCodeChunks` and `SearchTraceChunks` ask the database for the rows nearest to a query, and
`Search` merges the two answers by boosted score.

The database returns exactly the nearest rows.  Scores are exact, in any linear order with a
multiplication.
-/

namespace Uncworks

open List

open Ranking (IsTop)

def boostForNodeType (nodeType : String) : ℚ :=
  if nodeType = "function" ∨ nodeType = "method" then 1
  else if nodeType = "class" ∨ nodeType = "struct" then 9 / 10
  else if nodeType = "import" then 3 / 10
  else if nodeType = "whitespace" then 1 / 10
  else 7 / 10

/-! ## Tables and queries -/

structure Chunk (V : Type) where
  id : String
  agentRunID : String
  chunkText : String
  repoURL : String := ""
  embedding : V
  createdAt : ℤ := 0
  deriving DecidableEq

structure CodeChunk (V R : Type) extends Chunk V where
  filePath : String := ""
  language : String := ""
  nodeType : String := ""
  boost : R
  deriving DecidableEq

structure TraceChunk (V : Type) extends Chunk V where
  chunkType : String := ""
  severity : String := ""

structure SearchQuery (V : Type) where
  queryVec : V
  repoURL : String := ""
  sourceFilter : String := ""
  createdAfter : Option ℤ := none
  createdBefore : Option ℤ := none
  limit : ℤ := 0

def SearchQuery.selects {V : Type} (q : SearchQuery V) (c : Chunk V) : Bool :=
  (q.repoURL = "" || c.repoURL = q.repoURL) && q.createdAfter.all (· ≤ c.createdAt) &&
    q.createdBefore.all (c.createdAt ≤ ·)

/-- How the database chooses rows with `ORDER BY embedding <=> $1 LIMIT n`: it takes the nearest.
The distance is one minus the similarity. -/
structure NearestQuery (α R : Type) [LinearOrder R] where
  rows : (similarity : α → R) → (limit : ℕ) → (table : List α) → List α
  nearest : ∀ similarity limit table, IsTop similarity limit table (rows similarity limit table)

/-- The tables and the database that answers queries for them, or fails. -/
structure ChunkStore (V R : Type) [LinearOrder R] where
  codeChunks : List (CodeChunk V R)
  traceChunks : List (TraceChunk V)
  /-- The primary key of `code_chunks`. -/
  codeIDs : (codeChunks.map fun c => c.id).Nodup
  similarity : V → V → R
  codeQuery : NearestQuery (CodeChunk V R) R
  traceQuery : NearestQuery (TraceChunk V) R
  pgvectorReady : Bool := true
  codeErr : Option String := none
  traceErr : Option String := none

structure Found (α R : Type) where
  row : α
  similarity : R

structure SearchResult (R : Type) where
  chunkText : String
  sourceType : String
  similarity : R
  boostedScore : R
  agentRunID : String
  filePath : String := ""
  language : String := ""
  nodeType : String := ""
  chunkType : String := ""
  severity : String := ""
  repoURL : String
  createdAt : ℤ
  deriving DecidableEq

def SearchResult.before {R : Type} [LinearOrder R] (a b : SearchResult R) : Bool :=
  b.boostedScore < a.boostedScore

section Search

variable {V R : Type} [LinearOrder R] [Mul R]

namespace ChunkStore

variable (s : ChunkStore V R) (q : SearchQuery V) (limit : ℤ)

def rowLimit : ℕ := (if limit ≤ 0 then 10 else limit).toNat

def codeRows : List (CodeChunk V R) := s.codeChunks.filter fun c => q.selects c.toChunk

def traceRows : List (TraceChunk V) := s.traceChunks.filter fun c => q.selects c.toChunk

def score (c : Chunk V) : R := s.similarity q.queryVec c.embedding

def nearestCode : List (CodeChunk V R) :=
  s.codeQuery.rows (fun c => s.score q c.toChunk) (rowLimit limit) (s.codeRows q)

def nearestTrace : List (TraceChunk V) :=
  s.traceQuery.rows (fun c => s.score q c.toChunk) (rowLimit limit) (s.traceRows q)

def searchCodeChunks : Except String (List (Found (CodeChunk V R) R)) :=
  if !s.pgvectorReady then .error "failed: pgvector not available"
  else
    match s.codeErr with
    | some err => .error s!"search code chunks: {err}"
    | none => .ok ((s.nearestCode q limit).map fun c => ⟨c, s.score q c.toChunk⟩)

def searchTraceChunks : Except String (List (Found (TraceChunk V) R)) :=
  if !s.pgvectorReady then .error "failed: pgvector not available"
  else
    match s.traceErr with
    | some err => .error s!"search trace chunks: {err}"
    | none => .ok ((s.nearestTrace q limit).map fun c => ⟨c, s.score q c.toChunk⟩)

end ChunkStore

/-! ## `Search` -/

def codeResult (r : Found (CodeChunk V R) R) : SearchResult R where
  chunkText := r.row.chunkText
  sourceType := "code"
  similarity := r.similarity
  boostedScore := r.similarity * r.row.boost
  agentRunID := r.row.agentRunID
  filePath := r.row.filePath
  language := r.row.language
  nodeType := r.row.nodeType
  repoURL := r.row.repoURL
  createdAt := r.row.createdAt

def traceResult (r : Found (TraceChunk V) R) : SearchResult R where
  chunkText := r.row.chunkText
  sourceType := "trace"
  similarity := r.similarity
  boostedScore := r.similarity
  agentRunID := r.row.agentRunID
  chunkType := r.row.chunkType
  severity := r.row.severity
  repoURL := r.row.repoURL
  createdAt := r.row.createdAt

def searchLimit (limit : ℤ) : ℤ := if limit ≤ 0 then 10 else if 100 < limit then 100 else limit

variable (quote : String → String) (sort : Go.SliceSort (SearchResult.before (R := R)))
  (s : ChunkStore V R)
  (q : SearchQuery V)

def search : Except String (List (SearchResult R)) := do
  let limit := searchLimit q.limit
  if q.sourceFilter ≠ "" ∧ q.sourceFilter ≠ "code" ∧ q.sourceFilter ≠ "trace" then
    throw (s!"invalid input: invalid SourceFilter {quote q.sourceFilter}: " ++
      "must be empty, \"code\", or \"trace\"")
  let codeResults ← if q.sourceFilter = "" ∨ q.sourceFilter = "code" then
    s.searchCodeChunks q limit else pure []
  let traceResults ← if q.sourceFilter = "" ∨ q.sourceFilter = "trace" then
    s.searchTraceChunks q limit else pure []
  let results := sort.sort (codeResults.map codeResult ++ traceResults.map traceResult)
  pure (results.take limit.toNat)

namespace ChunkStore

def codeHit (c : CodeChunk V R) : SearchResult R := codeResult ⟨c, s.score q c.toChunk⟩

def traceHit (c : TraceChunk V) : SearchResult R := traceResult ⟨c, s.score q c.toChunk⟩

def hits : List (SearchResult R) :=
  (s.codeRows q).map (s.codeHit q) ++ (s.traceRows q).map (s.traceHit q)

def candidates : List (SearchResult R) :=
  (s.nearestCode q (searchLimit q.limit)).map (s.codeHit q) ++
    (s.nearestTrace q (searchLimit q.limit)).map (s.traceHit q)

def Outdone (c : CodeChunk V R) : Prop :=
  q.limit.toNat ≤ (s.candidates q).countP fun r => (s.codeHit q c).boostedScore ≤ r.boostedScore

end ChunkStore

variable {quote sort s q}

omit [Mul R] in
theorem ChunkStore.mem_codeRows_cut {rest limit c}
    (hperm : (s.nearestCode q limit ++ rest).Perm (s.codeRows q)) :
    c ∈ rest ↔ c ∈ s.codeRows q ∧ c ∉ s.nearestCode q limit := by
  have hnodup := hperm.nodup_iff.2 (s.codeIDs.of_map.filter _)
  rw [← hperm.mem_iff, mem_append]
  refine ⟨fun hc => ⟨.inr hc, fun hnear => ?_⟩, fun hc => hc.1.resolve_left hc.2⟩
  exact (nodup_append.1 hnodup).2.2 c hnear c hc rfl

theorem search_eq (hready : s.pgvectorReady) (hcode : s.codeErr = none) (htrace : s.traceErr = none)
    (hsource : q.sourceFilter = "") :
    search quote sort s q = .ok ((sort.sort (s.candidates q)).take (searchLimit q.limit).toNat) := by
  have hcodeRows : s.searchCodeChunks q (searchLimit q.limit) =
      .ok ((s.nearestCode q (searchLimit q.limit)).map fun c => ⟨c, s.score q c.toChunk⟩) := by
    simp [ChunkStore.searchCodeChunks, hready, hcode]
  have htraceRows : s.searchTraceChunks q (searchLimit q.limit) =
      .ok ((s.nearestTrace q (searchLimit q.limit)).map fun c => ⟨c, s.score q c.toChunk⟩) := by
    simp [ChunkStore.searchTraceChunks, hready, htrace]
  simp only [search, hsource, hcodeRows, htraceRows, ne_eq, not_true_eq_false, false_and, if_false,
    true_or, if_true]
  simp only [bind, Except.bind, map_map]
  rfl

theorem isTop_search (n : ℕ) :
    IsTop SearchResult.boostedScore n (s.candidates q) ((sort.sort (s.candidates q)).take n) := by
  refine Ranking.isTop_take (sort.perm _) ((sort.sorted _).imp fun h => ?_)
  simpa [SearchResult.before] using h

theorem rowLimit_searchLimit {limit} (hpos : 1 ≤ limit) (hmax : limit ≤ 100) :
    searchLimit limit = limit ∧ ChunkStore.rowLimit limit = limit.toNat := by
  rw [searchLimit, ChunkStore.rowLimit, if_neg (by omega), if_neg (by omega), if_neg (by omega)]
  exact ⟨rfl, rfl⟩

theorem ChunkStore.candidates_append_perm {restCode restTrace}
    (hcode : (s.nearestCode q (searchLimit q.limit) ++ restCode).Perm (s.codeRows q))
    (htrace : (s.nearestTrace q (searchLimit q.limit) ++ restTrace).Perm (s.traceRows q)) :
    (s.candidates q ++ (restCode.map (s.codeHit q) ++ restTrace.map (s.traceHit q))).Perm
      (s.hits q) := by
  have hboth := (hcode.map (s.codeHit q)).append (htrace.map (s.traceHit q))
  rw [map_append, map_append, append_assoc] at hboth
  refine Perm.trans ?_ hboth
  rw [candidates, append_assoc]
  exact Perm.append_left _ (perm_append_comm_assoc _ _ _)

omit [Mul R] in
/-- A trace chunk that the database leaves out is outdone by those it returns: traces are ranked by
their similarity. -/
theorem ChunkStore.le_countP_trace {limit restTrace c}
    (htrace : (s.nearestTrace q limit ++ restTrace).Perm (s.traceRows q)) (hc : c ∈ restTrace) :
    rowLimit limit ≤ ((s.nearestTrace q limit).map (s.traceHit q)).countP fun r =>
      (s.traceHit q c).boostedScore ≤ r.boostedScore := by
  rw [countP_map]
  exact (s.traceQuery.nearest _ _ _).le_countP htrace hc

/-- The results are the best of all hits exactly if each code chunk that the database leaves out is
outdone by as many candidates as are asked for. -/
theorem search_isTop_iff (quote : String → String)
    (sort : Go.SliceSort (SearchResult.before (R := R))) (s : ChunkStore V R) (q : SearchQuery V)
    (hready : s.pgvectorReady) (hcode : s.codeErr = none)
    (htrace : s.traceErr = none) (hsource : q.sourceFilter = "") (hpos : 1 ≤ q.limit)
    (hmax : q.limit ≤ 100) :
    (∃ results, search quote sort s q = .ok results ∧
      IsTop SearchResult.boostedScore q.limit.toNat (s.hits q) results) ↔
    ∀ c ∈ s.codeRows q, c ∉ s.nearestCode q q.limit → s.Outdone q c := by
  obtain ⟨hlimit, hrows⟩ := rowLimit_searchLimit hpos hmax
  obtain ⟨restCode, hpermCode, -⟩ :=
    (s.codeQuery.nearest (fun c => s.score q c.toChunk) (ChunkStore.rowLimit q.limit)
      (s.codeRows q)).best
  obtain ⟨restTrace, hpermTrace, -⟩ :=
    (s.traceQuery.nearest (fun c => s.score q c.toChunk) (ChunkStore.rowLimit q.limit)
      (s.traceRows q)).best
  have hcandidates : s.candidates q = (s.nearestCode q q.limit).map (s.codeHit q) ++
      (s.nearestTrace q q.limit).map (s.traceHit q) := by rw [ChunkStore.candidates, hlimit]
  have hall := ChunkStore.candidates_append_perm (hlimit.symm ▸ hpermCode) (hlimit.symm ▸ hpermTrace)
  have htraces : ∀ c ∈ restTrace, q.limit.toNat ≤
      (s.candidates q).countP fun r => (s.traceHit q c).boostedScore ≤ r.boostedScore := by
    intro c hc
    have hle := ChunkStore.le_countP_trace hpermTrace hc
    rw [hcandidates, List.countP_append]
    omega
  rw [search_eq hready hcode htrace hsource, hlimit]
  simp only [Except.ok.injEq, exists_eq_left']
  rw [(isTop_search q.limit.toNat).isTop_all_iff hall, List.forall_mem_append,
    List.forall_mem_map, List.forall_mem_map, and_iff_left htraces]
  refine forall_congr' fun c => ?_
  rw [ChunkStore.mem_codeRows_cut hpermCode, and_imp, ChunkStore.Outdone]

end Search

theorem ChunkStore.outdone_of_boost {V R : Type} [CommSemiring R] [LinearOrder R]
    [IsStrictOrderedRing R] {s : ChunkStore V R} {q b} (hb : 0 ≤ b)
    (hboost : ∀ c ∈ s.codeRows q, c.boost = b) (hpos : 1 ≤ q.limit) (hmax : q.limit ≤ 100) :
    ∀ c ∈ s.codeRows q, c ∉ s.nearestCode q q.limit → s.Outdone q c := by
  intro c hc hcut
  obtain ⟨hlimit, hrows⟩ := rowLimit_searchLimit hpos hmax
  have hnear := s.codeQuery.nearest (fun c => s.score q c.toChunk) (rowLimit q.limit) (s.codeRows q)
  obtain ⟨rest, hperm, -⟩ := hnear.best
  have hcount := hnear.le_countP hperm ((mem_codeRows_cut hperm).2 ⟨hc, hcut⟩)
  have hmono : (s.nearestCode q q.limit).countP (fun a => s.score q c.toChunk ≤ s.score q a.toChunk) ≤
      (s.nearestCode q q.limit).countP fun a =>
        (s.codeHit q c).boostedScore ≤ (s.codeHit q a).boostedScore := by
    refine countP_mono_left fun a ha hle => decide_eq_true ?_
    have hrow := hperm.subset (mem_append_left rest ha)
    simp only [codeHit, codeResult, hboost a hrow, hboost c hc]
    exact mul_le_mul_of_nonneg_right (of_decide_eq_true hle) hb
  rw [Outdone, candidates, hlimit, countP_append, countP_map, ← hrows]
  exact Nat.le_add_right_of_le (hcount.trans hmono)

/-! ## A search -/

def sortingQuery (α : Type) : NearestQuery α ℚ := ⟨Ranking.best, Ranking.isTop_best⟩

def boostedSort : Go.SliceSort (SearchResult.before (R := ℚ)) where
  sort l := l.insertionSort fun a b => b.boostedScore ≤ a.boostedScore
  perm l := l.perm_insertionSort _
  sorted l := (Ranking.pairwise_insertionSort_score _ l).imp fun h => by
    simpa [SearchResult.before] using h

def sampleChunk (id nodeType : String) (embedding : ℚ × ℚ) : CodeChunk (ℚ × ℚ) ℚ where
  id
  agentRunID := "ar-k3f9qz"
  chunkText := id
  embedding
  filePath := "main.go"
  language := "go"
  nodeType
  boost := boostForNodeType nodeType

def sampleStore (codeChunks : List (CodeChunk (ℚ × ℚ) ℚ))
    (h : (codeChunks.map fun c => c.id).Nodup) : ChunkStore (ℚ × ℚ) ℚ where
  codeChunks
  traceChunks :=
    [{ id := "t1", agentRunID := "ar-k3f9qz", chunkText := "t1", embedding := (3 / 5, 4 / 5) }]
  codeIDs := h
  similarity v w := v.1 * w.1 + v.2 * w.2
  codeQuery := sortingQuery _
  traceQuery := sortingQuery _

def functionStore : ChunkStore (ℚ × ℚ) ℚ :=
  sampleStore [sampleChunk "c1" "function" (1, 0), sampleChunk "c2" "method" (4 / 5, 3 / 5)] (by decide)

def whitespaceStore : ChunkStore (ℚ × ℚ) ℚ :=
  sampleStore [sampleChunk "c1" "whitespace" (1, 0), sampleChunk "c2" "function" (4 / 5, 3 / 5)]
    (by decide)

def sampleQuery : SearchQuery (ℚ × ℚ) where
  queryVec := (1, 0)
  limit := 1

theorem search_isTop_function :
    ∃ results, search id boostedSort functionStore sampleQuery = .ok results ∧
      IsTop SearchResult.boostedScore 1 (functionStore.hits sampleQuery) results :=
  (search_isTop_iff id boostedSort functionStore sampleQuery rfl rfl rfl rfl (by decide)
    (by decide)).2 (ChunkStore.outdone_of_boost zero_le_one (by decide +kernel) (by decide) (by decide))

/-- The nearest code chunk is whitespace, so a function almost as near is no candidate, and a trace
chunk with a lower score takes its place. -/
theorem search_misses_function :
    ¬ ∃ results, search id boostedSort whitespaceStore sampleQuery = .ok results ∧
      IsTop SearchResult.boostedScore 1 (whitespaceStore.hits sampleQuery) results := by
  rintro ⟨results, hsearch, htop⟩
  rw [search_eq rfl rfl rfl rfl] at hsearch
  cases hsearch
  have hperm : ((boostedSort.sort (whitespaceStore.candidates sampleQuery)).take 1 ++
      whitespaceStore.codeChunks.map (whitespaceStore.codeHit sampleQuery)).Perm
        (whitespaceStore.hits sampleQuery) := by
    decide +kernel
  have hle := fun a ha b hb => htop.le_of_mem (a := a) (b := b) hperm ha hb
  exact absurd hle (by decide +kernel)

end Uncworks
