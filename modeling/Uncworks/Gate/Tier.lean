import Uncworks.Go.Path
import Uncworks.Dedup.Firsts
import Mathlib.Data.List.Sort
import Mathlib.Data.String.Basic

/-!
# The tier of a diff

The factory gate reads the tier of a pull request from the paths it changes (`internal/gate`):
`classifyTier` looks for an amendment of the spec corpus first, leaves out documentation, tests and
the artifacts of a change, and counts the public surfaces and the capabilities of what is left.
-/

namespace Uncworks.Gate

open List

inductive Tier
  | amendment
  | experiment
  | t1
  | t2
  | t3
  deriving DecidableEq, Repr

def Tier.text : Tier → String
  | .amendment => "amendment"
  | .experiment => "experiment"
  | .t1 => "T1"
  | .t2 => "T2"
  | .t3 => "T3"

def docPrefixes : List String := ["docs/", ".github/ISSUE_TEMPLATE/"]
def testSuffixes : List String := ["_test.go", ".test.ts", ".spec.ts"]
def testPrefixes : List String := ["test/", "e2e/", "web/e2e/"]

/-- The paths where a change alters something that a caller outside the repository can observe. -/
def publicSurfaces : List String := ["proto/", "api/", "deploy/", "docker/", "gen/", "internal/server/"]

def specPrefix : String := "openspec/specs/"

def changePrefix : String := "openspec/changes/"

def isDoc (p : String) : Bool := docPrefixes.any (Go.hasPrefix p) || Go.hasSuffix p ".md"

def isTest (p : String) : Bool :=
  testPrefixes.any (Go.hasPrefix p) || testSuffixes.any (Go.hasSuffix p)

def publicSurface (p : String) : String :=
  match publicSurfaces.find? (Go.hasPrefix p) with
  | some surface => Go.trimSuffix surface "/"
  | none => ""

def capabilityOf (p : String) : String :=
  let parts := Go.split '/' p
  if (Go.hasPrefix p "internal/" || Go.hasPrefix p "cmd/") && 2 ≤ parts.length then
    parts.headD "" ++ "/" ++ parts.tail.headD ""
  else if Go.hasPrefix p "web/src/" then "web"
  else if Go.hasPrefix p "packages/" && 2 ≤ parts.length then
    parts.headD "" ++ "/" ++ parts.tail.headD ""
  else Go.pathDir p

def skipped (p : String) : Bool := isDoc p || isTest p || Go.hasPrefix p changePrefix

def sortStrings (l : List String) : List String := l.insertionSort (· ≤ ·)

theorem mem_sortStrings {p l} : p ∈ sortStrings l ↔ p ∈ l := by
  simp [sortStrings]

def dedupe (items : List String) : List String := Dedup.firsts some [] items

section

variable (changed : List String)

def codePaths : List String := changed.filter fun p => !skipped p

def capabilities : List String :=
  (((codePaths changed).map capabilityOf).filter (· ≠ "")).dedup

def surfaces : List String :=
  ((codePaths changed).map publicSurface).filter (· ≠ "")

def amended : List String := changed.filter (Go.hasPrefix · specPrefix)

def classifyTier : Tier × String :=
  if changed = [] then (.t1, "the diff is empty")
  else if amended changed ≠ [] then
    (.amendment, "the diff amends the spec corpus: " ++ ", ".intercalate (amended changed))
  else if codePaths changed = [] then (.t1, "the diff touches only documentation and tests")
  else if surfaces changed ≠ [] then
    (.t3, "the diff alters a public surface: " ++
      ", ".intercalate (dedupe (sortStrings (surfaces changed))))
  else if 1 < (capabilities changed).length then
    (.t3, s!"the diff spans {(capabilities changed).length} capabilities: " ++
      ", ".intercalate (sortStrings (capabilities changed)))
  else
    match capabilities changed with
    | name :: _ => (.t2, "the diff changes the capability " ++ name)
    | [] => (.t2, "the diff changes implementation code")

def Tier.rank : Tier → ℕ
  | .experiment => 0
  | .t1 => 1
  | .t2 => 2
  | .t3 => 3
  | .amendment => 4

theorem Tier.rank_injective : Function.Injective Tier.rank := by
  intro a b h
  cases a <;> cases b <;> first | rfl | cases h

/-! ## When a tier is reached -/

def Amends : Prop := ∃ p ∈ changed, Go.hasPrefix p specPrefix

def AltersSurface : Prop := ∃ p ∈ codePaths changed, publicSurface p ≠ ""

def SpansCapabilities : Prop :=
  ∃ p ∈ codePaths changed, ∃ q ∈ codePaths changed, capabilityOf p ≠ capabilityOf q

end

section Rank

variable {a b changed : List String} {p : String}

theorem mem_codePaths : p ∈ codePaths changed ↔ p ∈ changed ∧ skipped p = false := by
  simp [codePaths]

theorem codePaths_mono (h : a ⊆ b) : codePaths a ⊆ codePaths b := fun _ hp =>
  mem_codePaths.2 ⟨h (mem_codePaths.1 hp).1, (mem_codePaths.1 hp).2⟩

theorem capabilityOf_ne_empty (p : String) : capabilityOf p ≠ "" := by
  have hslash : ∀ a b : String, a ++ "/" ++ b ≠ "" := by
    intro a b h
    simpa using congrArg String.toList h
  unfold capabilityOf
  simp only
  split
  · exact hslash _ _
  · split
    · decide
    · split
      · exact hslash _ _
      · exact Go.clean_ne_empty _

theorem mem_capabilities {name} :
    name ∈ capabilities changed ↔ ∃ p ∈ codePaths changed, capabilityOf p = name := by
  simp only [capabilities, mem_dedup, mem_filter, mem_map, decide_eq_true_eq]
  constructor
  · exact fun h => h.1
  · rintro ⟨p, hp, rfl⟩
    exact ⟨⟨p, hp, rfl⟩, capabilityOf_ne_empty p⟩

theorem one_lt_length_capabilities_iff :
    1 < (capabilities changed).length ↔ SpansCapabilities changed := by
  have hnodup : (capabilities changed).Nodup := nodup_dedup _
  constructor
  · intro h
    match hcaps : capabilities changed, h with
    | x :: y :: rest, _ =>
      obtain ⟨p, hp, rfl⟩ := mem_capabilities.1 (hcaps ▸ mem_cons_self)
      obtain ⟨q, hq, rfl⟩ := mem_capabilities.1
        (hcaps ▸ mem_cons_of_mem (capabilityOf p) mem_cons_self)
      refine ⟨p, hp, q, hq, ?_⟩
      rw [hcaps, nodup_cons] at hnodup
      exact fun heq => hnodup.1 (heq ▸ mem_cons_self)
  · rintro ⟨p, hp, q, hq, hne⟩
    have hmemp := mem_capabilities.2 ⟨p, hp, rfl⟩
    have hmemq := mem_capabilities.2 ⟨q, hq, rfl⟩
    match hcaps : capabilities changed with
    | [] => rw [hcaps] at hmemp; exact absurd hmemp not_mem_nil
    | [x] =>
      rw [hcaps, mem_singleton] at hmemp hmemq
      exact absurd (hmemp.trans hmemq.symm) hne
    | x :: y :: rest => simp

open scoped Classical in
theorem classifyTier_fst (changed : List String) :
    (classifyTier changed).1 = if Amends changed then .amendment else if codePaths changed = [] then .t1
      else if AltersSurface changed ∨ SpansCapabilities changed then .t3 else .t2 := by
  have hA : amended changed ≠ [] ↔ Amends changed := by simp [amended, Amends]
  have hS : surfaces changed ≠ [] ↔ AltersSurface changed := by simp [surfaces, AltersSurface]
  by_cases hnil : changed = []
  · subst hnil
    simp [Amends, codePaths, classifyTier]
  · simp only [classifyTier, hnil, if_false, hA, hS, one_lt_length_capabilities_iff, ite_or,
      apply_ite Prod.fst]
    cases capabilities changed <;> rfl

end Rank

/-! ## More paths, no lower tier -/

section Mono

variable {a b : List String}

theorem rank_le_of_codePaths (hspec : Amends a → Amends b) (hcode : codePaths a ⊆ codePaths b) :
    (classifyTier a).1.rank ≤ (classifyTier b).1.rank := by
  have hnil : codePaths b = [] → codePaths a = [] := fun h => subset_nil.1 (h ▸ hcode)
  have hsurface : AltersSurface a → AltersSurface b := fun ⟨p, hp, h⟩ => ⟨p, hcode hp, h⟩
  have hspans : SpansCapabilities a → SpansCapabilities b := fun ⟨p, hp, q, hq, h⟩ =>
    ⟨p, hcode hp, q, hcode hq, h⟩
  rw [classifyTier_fst, classifyTier_fst]
  split_ifs <;> first | decide | tauto

theorem rank_classifyTier_mono (h : a ⊆ b) :
    (classifyTier a).1.rank ≤ (classifyTier b).1.rank :=
  rank_le_of_codePaths (fun ⟨p, hp, hspec⟩ => ⟨p, h hp, hspec⟩) (codePaths_mono h)

theorem classifyTier_congr (hspec : Amends a ↔ Amends b)
    (hcode : ∀ p, p ∈ codePaths a ↔ p ∈ codePaths b) : (classifyTier a).1 = (classifyTier b).1 :=
  Tier.rank_injective (le_antisymm
    (rank_le_of_codePaths hspec.1 fun p hp => (hcode p).1 hp)
    (rank_le_of_codePaths hspec.2 fun p hp => (hcode p).2 hp))

/-- The tier does not fall when paths are added, and paths in another order or more than once give the
same tier. -/
theorem classifyTier_mono (a b : List String) (h : a ⊆ b) :
    (classifyTier a).1.rank ≤ (classifyTier b).1.rank ∧
      (b ⊆ a → (classifyTier a).1 = (classifyTier b).1) :=
  ⟨rank_classifyTier_mono h, fun h' => Tier.rank_injective
    (le_antisymm (rank_classifyTier_mono h) (rank_classifyTier_mono h'))⟩

/-- Two packages, listed in two ways. -/
theorem classifyTier_mono_reordered :
    (classifyTier ["internal/gate/gate.go", "cmd/aot/main.go"]).1.rank ≤
        (classifyTier ["cmd/aot/main.go", "internal/gate/gate.go", "cmd/aot/main.go"]).1.rank ∧
      (classifyTier ["internal/gate/gate.go", "cmd/aot/main.go"]).1 =
        (classifyTier ["cmd/aot/main.go", "internal/gate/gate.go", "cmd/aot/main.go"]).1 := by
  have h := classifyTier_mono ["internal/gate/gate.go", "cmd/aot/main.go"]
    ["cmd/aot/main.go", "internal/gate/gate.go", "cmd/aot/main.go"] (by simp)
  exact ⟨h.1, h.2 (by simp)⟩

end Mono

end Uncworks.Gate
