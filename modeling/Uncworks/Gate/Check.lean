import Uncworks.Gate.Verdicts
import Mathlib.Data.UInt

/-!
# The gate on two commits

`Check` reads the changed paths from `git diff --name-only`, classifies them and computes the four
verdicts.  What `git` prints is modelled by its own rules: one line for each entry of the diff, for a
rename the line of the new name only, and a name with unusual bytes in quotes.
-/

namespace Uncworks.Gate

open List

open Specutil (Lib Disk)

/-! ## The verdicts together -/

structure Result where
  change : String := ""
  tier : Tier := .t1
  reason : String := ""
  verdicts : List Verdict := []

def Result.failed (r : Result) : Bool := r.verdicts.any fun v => v.required && !v.pass

def orderVerdict (atBase : String → Except String Bool) (opts : Options) (changed : List String) :
    Verdict :=
  let verdict : Verdict := { name := "factory/order", required := false }
  if opts.changeID = "" then { verdict with pass := true, summary := "no change named" }
  else if !changed.any fun p => !isDoc p && !isChangeArtifact p then
    { verdict with
      pass := true
      summary := "the diff changes no code, so nothing can precede its spec" }
  else
    let proposal := changePath opts.changeID ++ "/proposal.md"
    match atBase proposal with
    | .error err => { verdict with summary := "could not read the base ref: " ++ err }
    | .ok false =>
      { verdict with summary := "the code changes but " ++ proposal ++ " is absent from " ++ opts.base ++
          ", so the spec did not merge first" }
    | .ok true => { verdict with pass := true, summary := "the spec is present in " ++ opts.base }

/-- The offline gate over the pinned claims; `verify` gives the findings and the error of
`citelock.Verify`. -/
def citationsVerdict (disk : Disk) (verify : String → List String × Option String) (opts : Options) :
    Verdict :=
  let verdict : Verdict := { name := "factory/citations", required := true }
  let dir := changeDir opts.root opts.changeID
  if opts.changeID = "" then
    { verdict with pass := true, summary := "no change named, so there is no lock to gate" }
  else if (disk.stat dir).toOption.isNone then
    { verdict with pass := true, summary := "the change directory is not in this tree" }
  else if (disk.stat (Go.joinPath [dir, "citations.lock"])).toOption.isNone then
    { verdict with summary := "the change carries no citations.lock. Write \x7b\"records\":[]\x7d " ++
        "to state that it cites nothing" }
  else
    match verify dir with
    | (findings, some err) => { verdict with summary := err, detail := findings }
    | (_, none) => { verdict with pass := true, summary := "the offline citation gate passed" }

def check (lib : Lib) (disk : Disk) (atBase : String → Except String Bool)
    (verify : String → List String × Option String) (opts : Options)
    (changedPaths : Except String (List String)) : Result × Option String :=
  match changedPaths with
  | .error err =>
    ({}, some ("reading the diff between " ++ opts.base ++ " and " ++ opts.head ++ ": " ++ err))
  | .ok paths =>
    let changed := sortStrings paths
    let tier := classifyTier changed
    let result : Result :=
      { change := opts.changeID, tier := tier.1, reason := tier.2
        verdicts :=
          [tierVerdict lib disk atBase opts tier.1 tier.2 changed, citationsVerdict disk verify opts,
            conformanceVerdict lib disk opts changed, orderVerdict atBase opts changed] }
    (result, if result.failed then some "required gate verdict failed" else none)

/-! ## What `git` prints -/

abbrev FileName := List UInt8

/-- An entry of a diff; `git` pairs a deleted file with an added one that is similar enough. -/
inductive FileChange
  | added (name : FileName)
  | modified (name : FileName)
  | deleted (name : FileName)
  | renamed (old new : FileName)
  deriving DecidableEq

def FileChange.name : FileChange → FileName
  | added name => name
  | modified name => name
  | deleted name => name
  | renamed _ new => new

def FileChange.Holds {Blob : Type*} (base head : FileName → Option Blob) : FileChange → Prop
  | added name => base name = none ∧ head name ≠ none
  | modified name => base name ≠ none ∧ head name ≠ none ∧ base name ≠ head name
  | deleted name => base name ≠ none ∧ head name = none
  | renamed old new => base old ≠ none ∧ head old = none ∧ base new = none ∧ head new ≠ none

/-- The entries are a diff of two trees: they are right, and each file that differs is the name of
one, or the old name of a rename. -/
structure IsDiff {Blob : Type*} (base head : FileName → Option Blob) (entries : List FileChange) :
    Prop where
  holds : ∀ e ∈ entries, e.Holds base head
  complete : ∀ n, base n ≠ head n → ∃ e ∈ entries, e.name = n ∨ ∃ new, e = .renamed n new

def isPlain (b : UInt8) : Bool := 0x20 ≤ b.toNat && b.toNat < 0x7f && b ≠ 0x22 && b ≠ 0x5c

def escapeByte (b : UInt8) : List Char :=
  if isPlain b then [Char.ofNat b.toNat]
  else
    '\\' :: match b.toNat with
      | 7 => ['a']
      | 8 => ['b']
      | 9 => ['t']
      | 10 => ['n']
      | 11 => ['v']
      | 12 => ['f']
      | 13 => ['r']
      | 34 => ['"']
      | 92 => ['\\']
      | n => [Nat.digitChar (n / 64), Nat.digitChar (n / 8 % 8), Nat.digitChar (n % 8)]

def plainText (n : FileName) : String := String.ofList (n.map fun b => Char.ofNat b.toNat)

def printName (n : FileName) : String :=
  if n.all isPlain then plainText n else "\"" ++ String.ofList (n.flatMap escapeByte) ++ "\""

def nameOnly (entries : List FileChange) : String :=
  String.ofList (entries.flatMap fun e => (printName e.name).toList ++ ['\n'])

def changedPaths (out : String) : List String :=
  ((Go.split '\n' out).map Go.trimSpace).filter (· ≠ "")

/-! ## From the diff to the tier -/

section Diff

variable {entries : List FileChange} {e : FileChange} {n : FileName} {s pre : String}

theorem newline_not_mem_escapeByte (b : UInt8) : '\n' ∉ escapeByte b := by
  have h : ∀ n < 256, '\n' ∉ escapeByte (UInt8.ofNat n) := by decide +kernel
  simpa using h b.toNat b.toNat_lt

theorem plain_ne_newline {b} (hb : isPlain b = true) : Char.ofNat b.toNat ≠ '\n' := by
  have h := newline_not_mem_escapeByte b
  rw [escapeByte, if_pos hb] at h
  exact fun heq => h (by simp [heq])

theorem newline_not_mem_printName (n : FileName) : '\n' ∉ (printName n).toList := by
  unfold printName
  split
  · next hplain =>
    rw [plainText, String.toList_ofList, mem_map]
    rintro ⟨b, hb, heq⟩
    exact plain_ne_newline (all_eq_true.1 hplain b hb) heq
  · have hbody : '\n' ∉ n.flatMap escapeByte := by
      rw [mem_flatMap]
      rintro ⟨b, -, hb⟩
      exact newline_not_mem_escapeByte b hb
    simpa using hbody

theorem printName_mem_split (he : e ∈ entries) :
    printName e.name ∈ Go.split '\n' (nameOnly entries) := by
  rw [Go.split, nameOnly, String.toList_ofList]
  refine mem_map.2 ⟨(printName e.name).toList, ?_, String.ofList_toList⟩
  induction entries with
  | nil => exact absurd he not_mem_nil
  | cons first entries ih =>
    rw [flatMap_cons, append_assoc, singleton_append, splitOn,
      splitOnP_append_cons _ _ (by simp)]
    rcases mem_cons.1 he with rfl | he
    · refine mem_append_left _ ?_
      rw [splitOnP_eq_singleton]
      · exact mem_singleton_self _
      · intro c hc
        simp only [beq_eq_false_iff_ne]
        rintro rfl
        exact newline_not_mem_printName e.name hc
    · exact mem_append_right _ (ih he)

theorem hasPrefix_trimSpace (hne : pre.toList ≠ [])
    (hhead : ∀ c ∈ pre.toList.head?, Go.isSpace c = false)
    (hlast : ∀ c ∈ pre.toList.getLast?, Go.isSpace c = false) (h : Go.hasPrefix s pre) :
    Go.hasPrefix (Go.trimSpace s) pre := by
  obtain ⟨rest, rfl⟩ := Go.hasPrefix_iff.1 h
  obtain ⟨c, cs, hcs⟩ := exists_cons_of_ne_nil hne
  have hfront : (pre ++ rest).toList.dropWhile Go.isSpace = pre.toList ++ rest.toList := by
    rw [String.toList_append, hcs, cons_append]
    simp [hhead c (by rw [hcs]; rfl)]
  have hback : pre.toList.reverse.dropWhile Go.isSpace = pre.toList.reverse := by
    obtain ⟨d, ds, hds⟩ := exists_cons_of_ne_nil (reverse_ne_nil_iff.2 hne)
    rw [hds]
    have hd := hlast d (by rw [getLast?_eq_head?_reverse, hds]; rfl)
    simp [hd]
  rw [Go.trimSpace, hfront, reverse_append, dropWhile_append, hback]
  split
  · exact Go.hasPrefix_iff.2 ⟨"", by simp⟩
  · refine Go.hasPrefix_iff.2
      ⟨String.ofList (rest.toList.reverse.dropWhile Go.isSpace).reverse, String.toList_inj.1 ?_⟩
    simp

theorem trimSpace_mem_changedPaths (he : e ∈ entries) (hplain : e.name.all isPlain = true)
    (hne : Go.trimSpace (plainText e.name) ≠ "") :
    Go.trimSpace (plainText e.name) ∈ changedPaths (nameOnly entries) := by
  have hmem := printName_mem_split he
  rw [printName, if_pos hplain] at hmem
  exact mem_filter.2 ⟨mem_map_of_mem hmem, by simpa using hne⟩

theorem hasPrefix_trimSpace_of_mem (hpre : pre ∈ specPrefix :: publicSurfaces)
    (h : Go.hasPrefix s pre) : Go.hasPrefix (Go.trimSpace s) pre ∧ Go.trimSpace s ≠ "" := by
  have htable : ((specPrefix :: publicSurfaces).all fun pre => pre.toList ≠ [] ∧
      (pre.toList.head?.all fun c => !Go.isSpace c) ∧
      (pre.toList.getLast?.all fun c => !Go.isSpace c)) = true := by decide +kernel
  have hentry := all_eq_true.1 htable pre hpre
  simp only [decide_eq_true_eq] at hentry
  obtain ⟨hne, hhead, hlast⟩ := hentry
  have htrim := hasPrefix_trimSpace hne (fun c hc => by simpa using (Option.all_eq_true _ _).1 hhead c hc)
    (fun c hc => by simpa using (Option.all_eq_true _ _).1 hlast c hc) h
  refine ⟨htrim, ?_⟩
  rintro hempty
  obtain ⟨rest, hrest⟩ := Go.hasPrefix_iff.1 htrim
  rw [hempty] at hrest
  have hnil : pre.toList ++ rest.toList = [] := by
    rw [← String.toList_append, ← hrest]
    rfl
  exact hne (append_eq_nil_iff.1 hnil).1

theorem publicSurface_of_hasPrefix (hpre : pre ∈ publicSurfaces) (h : Go.hasPrefix s pre) :
    publicSurface s ≠ "" ∧ Go.hasPrefix s changePrefix = false := by
  have htable : (publicSurfaces.all fun pre => Go.trimSuffix pre "/" ≠ "" ∧ pre.toList ≠ [] ∧
      pre.toList.head? ≠ changePrefix.toList.head?) = true := by decide +kernel
  simp only [all_eq_true, decide_eq_true_eq] at htable
  constructor
  · unfold publicSurface
    cases hfind : publicSurfaces.find? (Go.hasPrefix s) with
    | none => exact absurd h (find?_eq_none.1 hfind pre hpre)
    | some surface => exact (htable surface (mem_of_find?_eq_some hfind)).1
  · rw [Bool.eq_false_iff]
    intro hchange
    obtain ⟨rest, rfl⟩ := Go.hasPrefix_iff.1 h
    obtain ⟨rest', heq⟩ := Go.hasPrefix_iff.1 hchange
    obtain ⟨-, hne, hhead⟩ := htable pre hpre
    refine hhead ?_
    have hlist := congrArg (fun s : String => s.toList.head?) heq
    simp only [String.toList_append] at hlist
    rwa [head?_append_of_ne_nil _ hne, head?_append_of_ne_nil _ (by decide)] at hlist

end Diff

/-- A file that differs between two trees, is not the old name of a rename and has a plain name
makes the diff an amendment in the spec corpus, and at least T3 on a public surface, if it is
neither documentation nor a test. -/
theorem check_tier {Blob : Type*} (base head : FileName → Option Blob) (entries : List FileChange)
    (lib : Lib) (disk : Disk) (atBase : String → Except String Bool)
    (verify : String → List String × Option String) (opts : Options) (n : FileName)
    (hdiff : IsDiff base head entries) (hchanged : base n ≠ head n)
    (hnew : ∀ new, .renamed n new ∉ entries) (hplain : n.all isPlain = true) :
    (Go.hasPrefix (plainText n) specPrefix = true →
      (check lib disk atBase verify opts (.ok (changedPaths (nameOnly entries)))).1.tier =
        .amendment) ∧
    ((∃ surface ∈ publicSurfaces, Go.hasPrefix (plainText n) surface = true) →
      isDoc (Go.trimSpace (plainText n)) = false → isTest (Go.trimSpace (plainText n)) = false →
      (check lib disk atBase verify opts (.ok (changedPaths (nameOnly entries)))).1.tier = .t3 ∨
      (check lib disk atBase verify opts (.ok (changedPaths (nameOnly entries)))).1.tier =
        .amendment) := by
  obtain ⟨e, he, rfl | ⟨new, rfl⟩⟩ := hdiff.complete n hchanged
  swap
  · exact absurd he (hnew new)
  have hmem : ∀ pre ∈ specPrefix :: publicSurfaces, Go.hasPrefix (plainText e.name) pre →
      Go.hasPrefix (Go.trimSpace (plainText e.name)) pre ∧
        Go.trimSpace (plainText e.name) ∈ sortStrings (changedPaths (nameOnly entries)) := by
    intro pre hpre hprefix
    obtain ⟨htrim, hne⟩ := hasPrefix_trimSpace_of_mem hpre hprefix
    exact ⟨htrim, by simpa [sortStrings] using trimSpace_mem_changedPaths he hplain hne⟩
  constructor
  · intro hspec
    obtain ⟨htrim, hpath⟩ := hmem specPrefix List.mem_cons_self hspec
    exact (classifyTier_fst _).trans (if_pos ⟨_, hpath, htrim⟩)
  · rintro ⟨surface, hsurface, hprefix⟩ hdoc htest
    obtain ⟨htrim, hpath⟩ := hmem surface (List.mem_cons_of_mem _ hsurface) hprefix
    obtain ⟨hpublic, hchange⟩ := publicSurface_of_hasPrefix hsurface htrim
    have hcode := mem_codePaths.2 ⟨hpath, by simp [skipped, hdoc, htest, hchange]⟩
    have htier := classifyTier_fst (sortStrings (changedPaths (nameOnly entries)))
    rw [if_neg (List.ne_nil_of_mem hcode), if_pos (Or.inl ⟨_, hcode, hpublic⟩)] at htier
    split_ifs at htier
    · exact Or.inr htier
    · exact Or.inl htier

def asciiName (s : String) : FileName := s.toList.map fun c => UInt8.ofNat c.toNat

def oneFile (n : FileName) (blob : ℕ) : FileName → Option ℕ := fun m => if m = n then some blob else none

theorem isDiff_modified (n : FileName) : IsDiff (oneFile n 0) (oneFile n 1) [.modified n] where
  holds := forall_mem_singleton.2 (by simp [FileChange.Holds, oneFile])
  complete m hm := by
    refine ⟨.modified n, mem_singleton_self _, Or.inl ?_⟩
    by_contra hne
    have hmn : m ≠ n := Ne.symm hne
    exact hm (by simp [oneFile, hmn])

def tierOfModified (n : FileName) : Tier :=
  (check Specutil.asciiLib ⟨fun _ => .error "no such file or directory", fun _ => none⟩
    (fun _ => .ok false) (fun _ => ([], none)) ⟨"", "main", "HEAD", "."⟩
    (.ok (changedPaths (nameOnly [.modified n])))).1.tier

theorem check_tier_proto :
    tierOfModified (asciiName "proto/api.proto") = .t3 ∨
      tierOfModified (asciiName "proto/api.proto") = .amendment := by
  have htext : plainText (asciiName "proto/api.proto") = "proto/api.proto" := by decide +kernel
  refine (check_tier (oneFile (asciiName "proto/api.proto") 0) (oneFile (asciiName "proto/api.proto") 1)
    [.modified (asciiName "proto/api.proto")] Specutil.asciiLib
    ⟨fun _ => .error "no such file or directory", fun _ => none⟩ (fun _ => .ok false)
    (fun _ => ([], none)) ⟨"", "main", "HEAD", "."⟩ (asciiName "proto/api.proto")
    (isDiff_modified _) (by simp [oneFile]) (by simp) (by decide +kernel)).2 ?_ ?_ ?_
  · exact ⟨"proto/", by decide, by rw [htext]; decide⟩
  all_goals decide +kernel

/-- A diff that modifies a test of the server is T1. -/
theorem server_test_is_t1 :
    IsDiff (oneFile (asciiName "internal/server/files_test.go") 0)
        (oneFile (asciiName "internal/server/files_test.go") 1)
        [.modified (asciiName "internal/server/files_test.go")] ∧
      Go.hasPrefix (plainText (asciiName "internal/server/files_test.go")) "internal/server/" = true ∧
      tierOfModified (asciiName "internal/server/files_test.go") = .t1 := by
  refine ⟨isDiff_modified _, ?_⟩
  decide +kernel

end Uncworks.Gate
