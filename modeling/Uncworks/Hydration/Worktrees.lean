import Uncworks.Hydration.Places
import Uncworks.Temporal.Steps

/-!
# The worktrees of a hydration

What the operations of `Hydrator.Run` leave on disk, over any number of hydrations of one
configuration that may stop at any point.  A git command works on the repository it finds from its
directory upwards, so it answers for a clone that is already there, whatever URL that is a clone of.
-/

namespace Uncworks

open List Option

/-- A bare clone, with its URL and whether git takes it for a repository, or a worktree of one. -/
inductive GitEntry where
  | clone (id : ℕ) (url : String) (valid : Bool)
  | tree (id : ℕ)
  deriving DecidableEq

structure Disk where
  entries : List (List String × GitEntry) := []
  /-- The number of clones that were made. -/
  next : ℕ := 0

namespace Disk

section

variable (d : Disk) (place : List String)

def occupied : Bool := d.entries.any fun e => place.isPrefixOf e.1

def hasClone (id : ℕ) : Bool :=
  d.entries.any fun e => match e.2 with
    | .clone id' _ _ => id' == id
    | .tree _ => false

/-- What git finds at a place itself: a clone, or a worktree that may have lost its clone. -/
def gitAt : Option (Option ℕ) :=
  d.entries.findSome? fun e =>
    if e.1 = place then
      match e.2 with
      | .clone id _ true => some (some id)
      | .clone _ _ false => none
      | .tree id => some (if d.hasClone id then some id else none)
    else none

def repoAt : Option ℕ :=
  ((range (place.length + 1)).reverse.findSome? fun n => d.gitAt (place.take n)).join

def hasGit : Bool :=
  d.entries.any fun e =>
    (match e.2 with
      | .tree _ => e.1 == place
      | .clone _ _ _ => false) || (place ++ [".git"]).isPrefixOf e.1

def add (entry : GitEntry) : Disk :=
  { d with entries := d.entries ++ [(place, entry)] }

def addClone (url : String) (valid : Bool) : Disk :=
  { d.add place (.clone d.next url valid) with next := d.next + 1 }

def addTree (bare tree : List String) : Disk :=
  match d.repoAt bare with
  | some id => d.add tree (.tree id)
  | none => d

def apply : FsOp → Effect → Disk
  | .removeAll dir, .done =>
    { d with entries := d.entries.filter fun e => !(Go.elements dir).isPrefixOf e.1 }
  | .removeAll dir, .cut _ keep =>
    { d with entries := d.entries.filter fun e => !(Go.elements dir).isPrefixOf e.1 || keep e.1 }
  | .clone url dir, .done => d.addClone (Go.elements dir) url true
  | .clone url dir, .cut (some valid) _ => d.addClone (Go.elements dir) url valid
  | .clone _ _, .cut none _ => d
  | .addWorktree bare tree, .done => d.addTree (Go.elements bare) (Go.elements tree)
  | .addWorktree bare tree, .cut (some _) _ => d.addTree (Go.elements bare) (Go.elements tree)
  | .addWorktree _ _, .cut none _ => d

def applyAll (ops : List (FsOp × Effect)) : Disk := ops.foldl (fun d o => d.apply o.1 o.2) d

theorem applyAll_append (ops more : List (FsOp × Effect)) :
    d.applyAll (ops ++ more) = (d.applyAll ops).applyAll more := foldl_append

theorem applyAll_nil : d.applyAll [] = d := rfl

theorem applyAll_singleton (op : FsOp) (effect : Effect) :
    d.applyAll [(op, effect)] = d.apply op effect := rfl

end

theorem applyAll_keeps {I : Disk → Prop} {ops} (hstep : ∀ o ∈ ops, ∀ d, I d → I (d.apply o.1 o.2))
    {d} (h : I d) : I (d.applyAll ops) := by
  induction ops generalizing d with
  | nil => exact h
  | cons o ops ih =>
    rw [forall_mem_cons] at hstep
    exact ih hstep.2 (hstep.1 d h)

def IsWorktreeOf (d : Disk) (place : List String) (url : String) : Prop :=
  ∃ id bare valid, (place, .tree id) ∈ d.entries ∧ (bare, .clone id url valid) ∈ d.entries

end Disk

namespace Hydrator

variable (lib : HydrationLib) (config : HydrationConfig)

def barePlace (repo : RepoConfig) : List String := Go.elements (bareDir lib config repo)

def treePlace (repo : RepoConfig) : List String := Go.elements (worktreeDir lib config repo)

section

variable (d : Disk) (a : RepoAnswers) (repo : RepoConfig)

def seeBare : RepoAnswers :=
  { a with
    stat := if a.stat = .failed then .failed
      else if d.occupied (barePlace lib config repo) then .found else .missing
    revParse := (d.repoAt (barePlace lib config repo)).isSome }

def clonedDisk : Disk :=
  d.applyAll (cloneOps (seeBare lib config d a repo) repo.url (bareDir lib config repo)).1

def honest : RepoAnswers :=
  { seeBare lib config d a repo with
    hasGit := (clonedDisk lib config d a repo).hasGit (treePlace lib config repo) }

def repoOpsOn : List (FsOp × Effect) × Bool := repoOps lib config (honest lib config d a repo) repo

end

/-- The operations of `Run` on a disk, and whether all repositories are hydrated. -/
def hydrateOn (answers : ℕ → RepoAnswers) : ℕ → List RepoConfig → Disk →
    List (FsOp × Effect) × Bool
  | _, [], _ => ([], true)
  | i, repo :: repos, d =>
    let hydrated := repoOpsOn lib config d (answers i) repo
    if hydrated.2 then
      let rest := hydrateOn answers (i + 1) repos (d.applyAll hydrated.1)
      (hydrated.1 ++ rest.1, rest.2)
    else hydrated

/-- The disks that hydrations leave; each of them may stop after any of its operations. -/
inductive Left : Disk → Prop
  | empty : Left {}
  | hydration {d : Disk} (answers : ℕ → RepoAnswers) (n : ℕ) : Left d →
    Left (d.applyAll ((hydrateOn lib config answers 0 config.repos d).1.take n))

/-- Repositories are placed inside of the workspace and outside of the bare clones, none above
another one, and those at one place have one URL. -/
structure WellPlaced : Prop where
  placed : ∀ repo ∈ config.repos, Placed (location lib repo)
  same : ∀ first ∈ config.repos, ∀ second ∈ config.repos,
    location lib first <+: location lib second →
      location lib first = location lib second ∧ first.url = second.url

/-! ## Separate places -/

def SameRepo (first second : RepoConfig) : Prop :=
  barePlace lib config first = barePlace lib config second ∧
    treePlace lib config first = treePlace lib config second ∧ first.url = second.url

structure Separate : Prop where
  bare_bare : ∀ first ∈ config.repos, ∀ second ∈ config.repos,
    barePlace lib config first <+: barePlace lib config second → SameRepo lib config first second
  tree_tree : ∀ first ∈ config.repos, ∀ second ∈ config.repos,
    treePlace lib config first <+: treePlace lib config second → SameRepo lib config first second
  tree_bare : ∀ first ∈ config.repos, ∀ second ∈ config.repos,
    ¬ treePlace lib config first <+: barePlace lib config second
  bare_tree : ∀ first ∈ config.repos, ∀ second ∈ config.repos,
    ¬ barePlace lib config first <+: treePlace lib config second

variable {lib config}

theorem WellPlaced.separate (h : WellPlaced lib config) (hclean : lib.clean = Go.clean)
    (hdir : config.workspaceDir ≠ "") : Separate lib config := by
  have hbare : ∀ repo ∈ config.repos, barePlace lib config repo =
      Go.elements config.workspaceDir ++ ".bare" :: location lib repo := fun repo hrepo =>
    elements_bareDir_of_not_up hclean (h.placed repo hrepo).not_mem_up
  have htree : ∀ repo ∈ config.repos, treePlace lib config repo =
      Go.elements config.workspaceDir ++ location lib repo := fun repo hrepo =>
    elements_worktreeDir hclean (fun hempty => absurd hempty hdir) (h.placed repo hrepo).not_mem_up
  have hsame : ∀ first ∈ config.repos, ∀ second ∈ config.repos,
      location lib first <+: location lib second → SameRepo lib config first second := by
    intro first hfirst second hsecond hinitial
    obtain ⟨heq, hurl⟩ := h.same first hfirst second hsecond hinitial
    refine ⟨?_, ?_, hurl⟩
    · rw [hbare first hfirst, hbare second hsecond, heq]
    · rw [htree first hfirst, htree second hsecond, heq]
  constructor
  case bare_bare =>
    intro first hfirst second hsecond hinitial
    rw [hbare first hfirst, hbare second hsecond, prefix_append_right_inj,
      cons_prefix_cons] at hinitial
    exact hsame first hfirst second hsecond hinitial.2
  case tree_tree =>
    intro first hfirst second hsecond hinitial
    rw [htree first hfirst, htree second hsecond, prefix_append_right_inj] at hinitial
    exact hsame first hfirst second hsecond hinitial
  case tree_bare =>
    intro first hfirst second hsecond hinitial
    rw [htree first hfirst, hbare second hsecond, prefix_append_right_inj] at hinitial
    have hplaced := h.placed first hfirst
    obtain ⟨name, names, heq⟩ := exists_cons_of_ne_nil hplaced.ne_nil
    rw [heq, cons_prefix_cons] at hinitial
    exact hplaced.ne_bare (by rw [heq, hinitial.1]; rfl)
  case bare_tree =>
    intro first hfirst second hsecond hinitial
    rw [hbare first hfirst, htree second hsecond, prefix_append_right_inj] at hinitial
    obtain ⟨rest, hrest⟩ := hinitial
    exact (h.placed second hsecond).ne_bare (by rw [← hrest]; rfl)

/-! ## Tidy disks -/

/-- Every clone is at the place of a repository with its URL, and every worktree at the place of a
repository whose clone it belongs to. -/
structure Tidy (lib : HydrationLib) (config : HydrationConfig) (d : Disk) : Prop where
  clones : ∀ place id url valid, (place, .clone id url valid) ∈ d.entries →
    ∃ repo ∈ config.repos, place = barePlace lib config repo ∧ url = repo.url
  trees : ∀ place id, (place, .tree id) ∈ d.entries → ∃ repo ∈ config.repos,
    place = treePlace lib config repo ∧
      (barePlace lib config repo, .clone id repo.url true) ∈ d.entries

variable {d : Disk} {repo : RepoConfig} {a : RepoAnswers}

theorem Tidy.isWorktreeOf (h : Tidy lib config d) (hs : Separate lib config)
    (hrepo : repo ∈ config.repos) {id} (htree : (treePlace lib config repo, .tree id) ∈ d.entries) :
    d.IsWorktreeOf (treePlace lib config repo) repo.url := by
  obtain ⟨other, hother, hplace, hclone⟩ := h.trees _ _ htree
  have hsame := hs.tree_tree repo hrepo other hother (hplace ▸ prefix_refl _)
  exact ⟨id, _, true, htree, hsame.2.2 ▸ hclone⟩

theorem mem_of_gitAt {place found} (h : d.gitAt place = some found) :
    (∃ id url, found = some id ∧ (place, .clone id url true) ∈ d.entries) ∨
      ∃ id, (place, .tree id) ∈ d.entries := by
  obtain ⟨⟨place', entry⟩, hmem, he⟩ := exists_of_findSome?_eq_some h
  dsimp only at he
  split_ifs at he with hplace
  subst hplace
  split at he
  · exact .inl ⟨_, _, (some.inj he).symm, hmem⟩
  · cases he
  · exact .inr ⟨_, hmem⟩

section Tidy

variable (h : Tidy lib config d) (hs : Separate lib config) (hrepo : repo ∈ config.repos)

include h hs hrepo

theorem clone_mem_of_repoAt {id} (hat : d.repoAt (barePlace lib config repo) = some id) :
    (barePlace lib config repo, .clone id repo.url true) ∈ d.entries := by
  rw [Disk.repoAt, join_eq_some_iff] at hat
  obtain ⟨n, -, hn⟩ := exists_of_findSome?_eq_some hat
  have hinitial := take_prefix n (barePlace lib config repo)
  obtain ⟨id', url, hid, hmem⟩ | ⟨id', hmem⟩ := mem_of_gitAt hn
  · obtain ⟨other, hother, hplace, rfl⟩ := h.clones _ _ _ _ hmem
    obtain rfl := some.inj hid
    rw [hplace] at hinitial hmem
    have hsame := hs.bare_bare other hother repo hrepo hinitial
    rwa [hsame.1, hsame.2.2] at hmem
  · obtain ⟨other, hother, hplace, -⟩ := h.trees _ _ hmem
    exact absurd (hplace ▸ hinitial) (hs.tree_bare other hother repo hrepo)

theorem repoAt_isSome {id url}
    (hclone : (barePlace lib config repo, .clone id url true) ∈ d.entries) :
    (d.repoAt (barePlace lib config repo)).isSome := by
  have hat : (d.gitAt (barePlace lib config repo)).isSome := by
    rw [Disk.gitAt, findSome?_isSome_iff]
    exact ⟨_, hclone, by simp⟩
  obtain ⟨found, hfound⟩ := isSome_iff_exists.1 hat
  rw [Disk.repoAt, range_succ, reverse_append, reverse_singleton,
    singleton_append, findSome?_cons, take_length, hfound]
  obtain ⟨id', _, rfl, -⟩ | ⟨id', hmem⟩ := mem_of_gitAt hfound
  · rfl
  · obtain ⟨other, hother, hplace, -⟩ := h.trees _ _ hmem
    exact absurd (hplace ▸ prefix_refl _) (hs.tree_bare other hother repo hrepo)

theorem tree_mem_of_hasGit (hgit : d.hasGit (treePlace lib config repo)) :
    ∃ id, (treePlace lib config repo, .tree id) ∈ d.entries := by
  obtain ⟨⟨place, entry⟩, hmem, he⟩ := any_eq_true.1 hgit
  rw [Bool.or_eq_true, isPrefixOf_iff_prefix] at he
  have hinitial : ∀ {place}, treePlace lib config repo ++ [".git"] <+: place →
      treePlace lib config repo <+: place := fun hp => (prefix_append _ _).trans hp
  cases entry with
  | clone id url valid =>
    obtain ⟨other, hother, rfl, -⟩ := h.clones _ _ _ _ hmem
    have hgit := he.resolve_left (by simp)
    exact absurd (hinitial hgit) (hs.tree_bare repo hrepo other hother)
  | tree id =>
    obtain heq | hgit := he
    · exact ⟨id, eq_of_beq heq ▸ hmem⟩
    · obtain ⟨other, hother, rfl, -⟩ := h.trees _ _ hmem
      have hsame := hs.tree_tree repo hrepo other hother (hinitial hgit)
      have hlength := hgit.length_le
      exact absurd hlength (by simp [hsame.2.1])

theorem clone_mem_of_tree {id} (htree : (treePlace lib config repo, .tree id) ∈ d.entries) :
    (barePlace lib config repo, .clone id repo.url true) ∈ d.entries := by
  obtain ⟨other, hother, hplace, hclone⟩ := h.trees _ _ htree
  have hsame := hs.tree_tree repo hrepo other hother (hplace ▸ prefix_refl _)
  rwa [hsame.1, hsame.2.2]

end Tidy

/-! ## Operations -/

theorem freshCloneOps_ok {url dir} (hok : (freshCloneOps a url dir).2 = true) :
    (freshCloneOps a url dir).1 = [(.clone url dir, .done)] := by
  unfold freshCloneOps at hok ⊢
  split_ifs at hok ⊢
  · split at hok
    · rfl
    · cases hok

theorem cloneOps_ok {url dir} (hok : (cloneOps a url dir).2 = true) :
    (cloneOps a url dir).1 = [] ∧ a.revParse = true ∨
      ∃ before, (cloneOps a url dir).1 = before ++ [(.clone url dir, .done)] := by
  unfold cloneOps at hok ⊢
  split at hok
  · cases hok
  · exact .inr ⟨[], freshCloneOps_ok hok⟩
  · split_ifs at hok ⊢ with hfound
    · exact .inl ⟨rfl, hfound⟩
    · split at hok
      · exact .inr ⟨[(.removeAll dir, .done)], congrArg _ (freshCloneOps_ok hok)⟩
      · cases hok

theorem repoOps_cases (lib : HydrationLib) (config : HydrationConfig) (a : RepoAnswers)
    (repo : RepoConfig) :
    repoOps lib config a repo = ([], false) ∨
    (cloneOps a repo.url (bareDir lib config repo)).2 = false ∧
      repoOps lib config a repo = cloneOps a repo.url (bareDir lib config repo) ∨
    (cloneOps a repo.url (bareDir lib config repo)).2 = true ∧
      repoOps lib config a repo =
        ((cloneOps a repo.url (bareDir lib config repo)).1 ++
          (worktreeOps a (bareDir lib config repo) (worktreeDir lib config repo)).1,
        (worktreeOps a (bareDir lib config repo) (worktreeDir lib config repo)).2) := by
  unfold repoOps
  split
  · exact .inl rfl
  · cases hok : (cloneOps a repo.url (bareDir lib config repo)).2 with
    | false => exact .inr (.inl ⟨rfl, if_neg (by simp [hok])⟩)
    | true => exact .inr (.inr ⟨rfl, if_pos hok⟩)

theorem cloneOps_honest (d : Disk) (a : RepoAnswers) (repo : RepoConfig) (url dir : String) :
    cloneOps (honest lib config d a repo) url dir =
      cloneOps (seeBare lib config d a repo) url dir := by
  rfl

theorem worktreeOps_ok {bare tree} (hok : (worktreeOps a bare tree).2 = true) :
    (worktreeOps a bare tree).1 = [] ∧ a.hasGit = true ∨
      (worktreeOps a bare tree).1 = [(.addWorktree bare tree, .done)] := by
  unfold worktreeOps at hok ⊢
  split_ifs at hok ⊢ with hgit
  · exact .inl ⟨rfl, hgit⟩
  · split at hok
    · exact .inr rfl
    · cases hok

section

variable (lib : HydrationLib) (config : HydrationConfig) (repo : RepoConfig)

def NoTree (d : Disk) : Prop := ∀ id, (treePlace lib config repo, .tree id) ∉ d.entries

def CloneOp (op : FsOp) : Prop :=
  op = .removeAll (bareDir lib config repo) ∨ op = .clone repo.url (bareDir lib config repo)

end

/-- What an operation on a repository adds: a clone, or a worktree of the clone that git finds. -/
inductive Added (lib : HydrationLib) (config : HydrationConfig) (d : Disk) (repo : RepoConfig) :
    FsOp → List String × GitEntry → Prop
  | clone (valid : Bool) : Added lib config d repo (.clone repo.url (bareDir lib config repo))
      (barePlace lib config repo, .clone d.next repo.url valid)
  | tree {id : ℕ} (h : d.repoAt (barePlace lib config repo) = some id) :
      Added lib config d repo (.addWorktree (bareDir lib config repo) (worktreeDir lib config repo))
        (treePlace lib config repo, .tree id)

variable {op : FsOp} {effect : Effect} {e : List String × GitEntry}

theorem mem_apply (hop : OwnOp lib config repo op) (h : e ∈ (d.apply op effect).entries) :
    e ∈ d.entries ∨ Added lib config d repo op e := by
  have hnew {x} (hx : Added lib config d repo op x) (h : e ∈ d.entries ++ [x]) :
      e ∈ d.entries ∨ Added lib config d repo op e := by
    obtain h | h := mem_append.1 h
    · exact .inl h
    · exact .inr (mem_singleton.1 h ▸ hx)
  obtain rfl | rfl | rfl := hop
  · cases effect <;> exact .inl (mem_of_mem_filter h)
  · rcases effect with _ | ⟨_ | valid, keep⟩
    · exact hnew (.clone true) h
    · exact .inl h
    · exact hnew (.clone valid) h
  · replace hnew (h : e ∈ (d.addTree (barePlace lib config repo) (treePlace lib config repo)).entries) :
        e ∈ d.entries ∨ Added lib config d repo
          (.addWorktree (bareDir lib config repo) (worktreeDir lib config repo)) e := by
      unfold Disk.addTree at h
      split at h
      · exact hnew (.tree ‹_›) h
      · exact .inl h
    rcases effect with _ | ⟨_ | valid, keep⟩
    · exact hnew h
    · exact .inl h
    · exact hnew h

theorem mem_apply_of_mem (h : e ∈ d.entries)
    (hkeep : ∀ dir, op = .removeAll dir → ¬ Go.elements dir <+: e.1) :
    e ∈ (d.apply op effect).entries := by
  cases op with
  | removeAll dir =>
    have hdir := hkeep dir rfl
    rw [← isPrefixOf_iff_prefix] at hdir
    cases effect <;> exact mem_filter.2 ⟨h, by simp [hdir]⟩
  | clone url dir =>
    rcases effect with _ | ⟨_ | valid, keep⟩
    · exact mem_append_left _ h
    · exact h
    · exact mem_append_left _ h
  | addWorktree bare tree =>
    have hadd : e ∈ (d.addTree (Go.elements bare) (Go.elements tree)).entries := by
      unfold Disk.addTree
      split
      · exact mem_append_left _ h
      · exact h
    rcases effect with _ | ⟨_ | valid, keep⟩
    · exact hadd
    · exact h
    · exact hadd

section Operations

variable (hs : Separate lib config) (hrepo : repo ∈ config.repos) {ops : List (FsOp × Effect)}

include hs hrepo

theorem Tidy.apply (h : Tidy lib config d) (hop : OwnOp lib config repo op)
    (hno : ∀ dir, op = .removeAll dir → NoTree lib config repo d) :
    Tidy lib config (d.apply op effect) where
  clones place id url valid hmem := by
    obtain hmem | hnew := mem_apply hop hmem
    · exact h.clones place id url valid hmem
    · cases hnew
      exact ⟨repo, hrepo, rfl, rfl⟩
  trees place id hmem := by
    obtain hmem | hnew := mem_apply hop hmem
    · obtain ⟨other, hother, rfl, hclone⟩ := h.trees place id hmem
      refine ⟨other, hother, rfl, mem_apply_of_mem hclone fun dir hdir hinitial => ?_⟩
      obtain rfl : dir = bareDir lib config repo := by simpa [OwnOp, hdir] using hop
      have hsame := hs.bare_bare repo hrepo other hother hinitial
      exact hno _ hdir id (hsame.2.1 ▸ hmem)
    · cases hnew with
      | tree hfound =>
        exact ⟨repo, hrepo, rfl, mem_apply_of_mem (clone_mem_of_repoAt h hs hrepo hfound) (by simp)⟩

omit hs hrepo in
theorem noTree_apply (hop : CloneOp lib config repo op) (hno : NoTree lib config repo d) :
    NoTree lib config repo (d.apply op effect) := by
  intro id hmem
  obtain hmem | hnew := mem_apply (hop.imp_right .inl) hmem
  · exact hno id hmem
  · generalize treePlace lib config repo = place at hnew
    obtain rfl | rfl := hop <;> cases hnew

theorem tidy_applyAll_clone (h : Tidy lib config d) (hno : NoTree lib config repo d)
    (hops : ∀ o ∈ ops, CloneOp lib config repo o.1) :
    Tidy lib config (d.applyAll ops) :=
  (Disk.applyAll_keeps (I := fun d => Tidy lib config d ∧ NoTree lib config repo d)
    (fun o ho _ hd => ⟨hd.1.apply hs hrepo ((hops o ho).imp_right .inl) fun _ _ => hd.2,
      noTree_apply (hops o ho) hd.2⟩) ⟨h, hno⟩).1

theorem tidy_applyAll_addWorktree (h : Tidy lib config d)
    (hops : ∀ o ∈ ops,
      o.1 = .addWorktree (bareDir lib config repo) (worktreeDir lib config repo)) :
    Tidy lib config (d.applyAll ops) := by
  refine Disk.applyAll_keeps (fun o ho d hd => ?_) h
  refine hd.apply hs hrepo (.inr (.inr (hops o ho))) fun dir hdir => ?_
  rw [hops o ho] at hdir
  cases hdir

theorem noTree_of_cloneOps (h : Tidy lib config d) {a}
    (hops : (cloneOps (seeBare lib config d a repo) repo.url (bareDir lib config repo)).1 ≠ []) :
    NoTree lib config repo d := by
  intro id htree
  have hclone := clone_mem_of_tree h hs hrepo htree
  have hoccupied : d.occupied (barePlace lib config repo) :=
    any_eq_true.2 ⟨_, hclone, isPrefixOf_iff_prefix.2 (prefix_refl _)⟩
  have hfound := repoAt_isSome h hs hrepo hclone
  refine hops ?_
  simp only [cloneOps, seeBare, hfound, if_true]
  split_ifs <;> rfl

theorem tidy_cloned (h : Tidy lib config d) (a : RepoAnswers) (n : ℕ) :
    Tidy lib config (d.applyAll
      ((cloneOps (seeBare lib config d a repo) repo.url (bareDir lib config repo)).1.take n)) := by
  by_cases hnil : (cloneOps (seeBare lib config d a repo) repo.url (bareDir lib config repo)).1 = []
  · rwa [hnil, take_nil]
  · exact tidy_applyAll_clone hs hrepo h (noTree_of_cloneOps hs hrepo h hnil) fun o ho =>
      mem_cloneOps (mem_of_mem_take ho)

theorem tidy_repoOps (h : Tidy lib config d) (a : RepoAnswers) (n : ℕ) :
    Tidy lib config (d.applyAll ((repoOpsOn lib config d a repo).1.take n)) := by
  have hcloned := tidy_cloned hs hrepo h a n
  obtain heq | ⟨-, heq⟩ | ⟨-, heq⟩ := repoOps_cases lib config
    (honest lib config d a repo) repo
  · rwa [repoOpsOn, heq, take_nil]
  · rwa [repoOpsOn, heq]
  · rw [repoOpsOn, heq, take_append, Disk.applyAll_append]
    exact tidy_applyAll_addWorktree hs hrepo hcloned fun o ho =>
      mem_worktreeOps (mem_of_mem_take ho)

theorem tidy_clonedDisk (h : Tidy lib config d) (a : RepoAnswers) :
    Tidy lib config (clonedDisk lib config d a repo) := by
  have htidy := tidy_cloned hs hrepo h a
    (cloneOps (seeBare lib config d a repo) repo.url (bareDir lib config repo)).1.length
  rwa [take_length] at htidy

theorem clonedDisk_repoAt (h : Tidy lib config d) (a : RepoAnswers)
    (hok : (cloneOps (seeBare lib config d a repo) repo.url (bareDir lib config repo)).2 = true) :
    ((clonedDisk lib config d a repo).repoAt (barePlace lib config repo)).isSome := by
  have htidy := tidy_clonedDisk hs hrepo h a
  unfold clonedDisk at htidy ⊢
  obtain ⟨hnil, hfound⟩ | ⟨before, hops⟩ := cloneOps_ok hok
  · rwa [hnil, Disk.applyAll_nil]
  · have hclone : (barePlace lib config repo, .clone (d.applyAll before).next repo.url true) ∈
        ((d.applyAll before).apply (.clone repo.url (bareDir lib config repo)) .done).entries :=
      mem_append_right _ mem_cons_self
    rw [hops, Disk.applyAll_append] at htidy ⊢
    exact repoAt_isSome htidy hs hrepo hclone

theorem tree_of_repoOps (h : Tidy lib config d) (a : RepoAnswers)
    (hok : (repoOpsOn lib config d a repo).2 = true) :
    ∃ id, (treePlace lib config repo, .tree id) ∈
      (d.applyAll (repoOpsOn lib config d a repo).1).entries := by
  have htidy := tidy_clonedDisk hs hrepo h a
  unfold repoOpsOn at hok ⊢
  obtain heq | ⟨hclone, heq⟩ | ⟨hclone, heq⟩ := repoOps_cases lib config
    (honest lib config d a repo) repo
  · rw [heq] at hok
    cases hok
  · rw [heq, hclone] at hok
    cases hok
  · obtain ⟨id, hid⟩ := isSome_iff_exists.1 (clonedDisk_repoAt hs hrepo h a hclone)
    rw [heq] at hok ⊢
    rw [cloneOps_honest, Disk.applyAll_append, ← clonedDisk]
    obtain ⟨hnil, hgit⟩ | hadd := worktreeOps_ok hok
    · rw [hnil]
      exact tree_mem_of_hasGit htidy hs hrepo hgit
    · refine ⟨id, ?_⟩
      rw [hadd, Disk.applyAll_singleton, Disk.apply, Disk.addTree, ← barePlace, hid]
      exact mem_append_right _ mem_cons_self

theorem tree_mem_applyAll {other} (hother : other ∈ config.repos) {id}
    (hops : ∀ o ∈ ops, OwnOp lib config repo o.1)
    (h : (treePlace lib config other, .tree id) ∈ d.entries) :
    (treePlace lib config other, .tree id) ∈ (d.applyAll ops).entries := by
  refine Disk.applyAll_keeps (I := fun d => (_, GitEntry.tree id) ∈ d.entries)
    (fun o ho d hd => mem_apply_of_mem hd fun dir hdir => ?_) h
  obtain rfl : dir = bareDir lib config repo := by simpa [OwnOp, hdir] using hops o ho
  exact hs.bare_tree repo hrepo other hother

end Operations

/-! ## Hydrations -/

section Hydrations

variable (answers : ℕ → RepoAnswers) {repos : List RepoConfig} {i : ℕ}

theorem hydrateOn_fst (repos : List RepoConfig)
    (hok : (repoOpsOn lib config d (answers i) repo).2 = true) :
    (hydrateOn lib config answers i (repo :: repos) d).1 =
      (repoOpsOn lib config d (answers i) repo).1 ++
        (hydrateOn lib config answers (i + 1) repos
          (d.applyAll (repoOpsOn lib config d (answers i) repo).1)).1 := by
  rw [hydrateOn, if_pos hok]

theorem hydrateOn_snd
    (hok : (hydrateOn lib config answers i (repo :: repos) d).2 = true) :
    (repoOpsOn lib config d (answers i) repo).2 = true ∧
      (hydrateOn lib config answers (i + 1) repos
        (d.applyAll (repoOpsOn lib config d (answers i) repo).1)).2 = true := by
  rw [hydrateOn] at hok
  split_ifs at hok with hrepo
  · exact ⟨hrepo, hok⟩
  · exact absurd hok hrepo

variable (hs : Separate lib config)

include hs

theorem tidy_repoOpsOn (hrepo : repo ∈ config.repos) (h : Tidy lib config d) (a : RepoAnswers) :
    Tidy lib config (d.applyAll (repoOpsOn lib config d a repo).1) := by
  have hstep := tidy_repoOps hs hrepo h a (repoOpsOn lib config d a repo).1.length
  rwa [take_length] at hstep

theorem tidy_hydrateOn (hrepos : repos ⊆ config.repos)
    (h : Tidy lib config d) (n : ℕ) :
    Tidy lib config (d.applyAll ((hydrateOn lib config answers i repos d).1.take n)) := by
  induction repos generalizing i d n with
  | nil => rwa [hydrateOn, take_nil]
  | cons repo repos ih =>
    rw [cons_subset] at hrepos
    by_cases hok : (repoOpsOn lib config d (answers i) repo).2 = true
    · rw [hydrateOn_fst answers repos hok, take_append, Disk.applyAll_append]
      by_cases hn : n ≤ (repoOpsOn lib config d (answers i) repo).1.length
      · rw [Nat.sub_eq_zero_of_le hn, take_zero]
        exact tidy_repoOps hs hrepos.1 h (answers i) n
      · rw [take_of_length_le (by omega)]
        exact ih hrepos.2 (tidy_repoOpsOn hs hrepos.1 h (answers i)) _
    · rw [hydrateOn, if_neg hok]
      exact tidy_repoOps hs hrepos.1 h (answers i) n

theorem tree_mem_hydrateOn (hrepos : repos ⊆ config.repos) (hrepo : repo ∈ config.repos) {id}
    (h : (treePlace lib config repo, .tree id) ∈ d.entries) :
    (treePlace lib config repo, .tree id) ∈
      (d.applyAll (hydrateOn lib config answers i repos d).1).entries := by
  induction repos generalizing i d with
  | nil => exact h
  | cons first repos ih =>
    rw [cons_subset] at hrepos
    have hops : ∀ o ∈ (repoOpsOn lib config d (answers i) first).1, OwnOp lib config first o.1 :=
      fun o ho => mem_repoOps ho
    have hstep := tree_mem_applyAll hs hrepos.1 hrepo hops h
    by_cases hok : (repoOpsOn lib config d (answers i) first).2 = true
    · rw [hydrateOn_fst answers repos hok, Disk.applyAll_append]
      exact ih hrepos.2 hstep
    · rw [hydrateOn, if_neg hok]
      exact hstep

theorem tree_of_hydrateOn (hrepos : repos ⊆ config.repos)
    (h : Tidy lib config d) (hok : (hydrateOn lib config answers i repos d).2 = true) :
    ∀ repo ∈ repos, ∃ id, (treePlace lib config repo, .tree id) ∈
      (d.applyAll (hydrateOn lib config answers i repos d).1).entries := by
  induction repos generalizing i d with
  | nil => simp
  | cons first repos ih =>
    rw [cons_subset] at hrepos
    obtain ⟨hfirst, hrest⟩ := hydrateOn_snd answers hok
    rw [hydrateOn_fst answers repos hfirst, Disk.applyAll_append, forall_mem_cons]
    refine ⟨?_, ih hrepos.2 (tidy_repoOpsOn hs hrepos.1 h (answers i)) hrest⟩
    obtain ⟨id, htree⟩ := tree_of_repoOps hs hrepos.1 h (answers i) hfirst
    exact ⟨id, tree_mem_hydrateOn answers hs hrepos.2 hrepos.1 htree⟩

theorem Left.tidy (h : Left lib config d) : Tidy lib config d := by
  induction h with
  | empty => exact ⟨by simp, by simp⟩
  | hydration answers n h ih => exact tidy_hydrateOn answers hs (Subset.refl _) ih n

end Hydrations

/-! ## The directory of the workflow -/

theorem workflow_repoNameFromURL {env} (henv : env.urlPath = lib.urlPath) (url : String) :
    Uncworks.repoNameFromURL env url = repoNameFromURL lib url := by
  unfold Uncworks.repoNameFromURL repoNameFromURL
  rw [henv]
  cases lib.urlPath url with
  | none => rfl
  | some path =>
    dsimp only
    rw [ite_not]

theorem workflow_repoPath (hclean : lib.clean = Go.clean)
    (hdir : config.workspaceDir = "/workspace") {env} (henv : env.urlPath = lib.urlPath)
    {input r rest} (hinput : input.repos = r :: rest) (hurl : r.url = repo.url)
    (hpath : r.path = repo.path) :
    Go.clean (Uncworks.repoPath env input) = worktreeDir lib config repo := by
  have hrepo : Uncworks.repoPath env input = "/workspace/" ++ repoPath lib repo := by
    rw [Uncworks.repoPath, hinput]
    dsimp only
    rw [workflow_repoNameFromURL henv, hurl, hpath, repoPath]
  rw [hrepo, worktreeDir, join_eq hclean, hdir]
  by_cases hname : repoPath lib repo = ""
  · rw [hname]
    decide
  · have htext : "/workspace/" ++ repoPath lib repo =
        "/".intercalate (["/workspace", repoPath lib repo].filter (· ≠ "")) := by
      rw [filter_cons_of_pos (by decide), filter_cons_of_pos (by simpa using hname),
        filter_nil, Go.intercalate_cons_cons, ← String.append_assoc]
      simp
    rw [htext]
    rfl

/-- If repositories at one place have one URL and none is placed above another one, a successful
hydration leaves a worktree of its own URL for every repository.  The workflow always works in the
directory of the first one. -/
theorem hydrated_worktrees (hclean : lib.clean = Go.clean)
    (hdir : config.workspaceDir = "/workspace") {env : Env} (henv : env.urlPath = lib.urlPath)
    {input : WorkflowInput}
    (hinput : input.repos.map (fun r => (r.url, r.path)) =
      config.repos.map fun r => (r.url, r.path)) :
    (WellPlaced lib config → ∀ d, Left lib config d → ∀ answers,
      (hydrateOn lib config answers 0 config.repos d).2 = true → ∀ repo ∈ config.repos,
        (d.applyAll (hydrateOn lib config answers 0 config.repos d).1).IsWorktreeOf
          (treePlace lib config repo) repo.url) ∧
    ∀ first rest, config.repos = first :: rest →
      Go.clean (Uncworks.repoPath env input) = worktreeDir lib config first := by
  constructor
  · intro hwell d hleft answers hok repo hrepo
    have hs := hwell.separate hclean (by rw [hdir]; decide)
    have htidy := hleft.tidy hs
    have hall := List.Subset.refl config.repos
    obtain ⟨id, htree⟩ := tree_of_hydrateOn answers hs hall htidy hok repo hrepo
    have hafter := tidy_hydrateOn answers (i := 0) hs hall htidy
      (hydrateOn lib config answers 0 config.repos d).1.length
    rw [List.take_length] at hafter
    exact hafter.isWorktreeOf hs hrepo htree
  · intro first rest hfirst
    rw [hfirst] at hinput
    obtain ⟨r, others, heq⟩ : ∃ r others, input.repos = r :: others :=
      List.exists_cons_of_ne_nil fun hnil => by simp [hnil] at hinput
    rw [heq, List.map_cons, List.map_cons, List.cons.injEq, Prod.mk.injEq] at hinput
    exact workflow_repoPath hclean hdir henv heq hinput.1.1 hinput.1.2

def unixEnv : Env := { unixLib.toLib with nowMilli := 0 }

def shopInput : WorkflowInput where
  repos := [{ url := "https://github.com/acme/api.git", path := "shop/api" },
    { url := "https://github.com/acme/web.git" }]

/-- The first hydration is killed while it clones the second repository. -/
def killedAnswers (i : ℕ) : RepoAnswers :=
  if i = 1 then { clone := .cut (some false) fun _ => true } else {}

def killedDisk : Disk :=
  Disk.applyAll {} ((hydrateOn unixLib sideBySide killedAnswers 0 sideBySide.repos {}).1.take 3)

theorem wellPlaced_sideBySide : WellPlaced unixLib sideBySide where
  placed := by
    rw [sideBySide, forall_mem_cons, forall_mem_singleton]
    exact ⟨⟨by decide, by decide, by decide⟩, ⟨by decide, by decide, by decide⟩⟩
  same := by decide

/-- The next hydration replaces the broken clone. -/
theorem hydrated_worktrees_killed :
    (hydrateOn unixLib sideBySide (fun _ => {}) 0 sideBySide.repos killedDisk).2 = true ∧
    (∀ repo ∈ sideBySide.repos,
      (killedDisk.applyAll (hydrateOn unixLib sideBySide (fun _ => {}) 0 sideBySide.repos
        killedDisk).1).IsWorktreeOf (treePlace unixLib sideBySide repo) repo.url) ∧
    Go.clean (Uncworks.repoPath unixEnv shopInput) =
      worktreeDir unixLib sideBySide
        { url := "https://github.com/acme/api.git", path := "shop/api" } := by
  have hok : (hydrateOn unixLib sideBySide (fun _ => {}) 0 sideBySide.repos killedDisk).2 = true := by
    decide +kernel
  have hinput : shopInput.repos.map (fun r => (r.url, r.path)) =
      sideBySide.repos.map fun r => (r.url, r.path) := rfl
  have h := hydrated_worktrees (show unixLib.clean = Go.clean from rfl) rfl
    (show unixEnv.urlPath = unixLib.urlPath from rfl) hinput
  exact ⟨hok, h.1 wellPlaced_sideBySide _ (.hydration _ _ .empty) _ hok, h.2 _ _ rfl⟩

def twins : HydrationConfig where
  repos := [{ url := "https://github.com/acme/api.git" },
    { url := "https://github.com/globex/api.git" }]

/-- The second repository takes over the clone and the worktree of the first one. -/
theorem twins_share_worktree :
    (hydrateOn unixLib twins (fun _ => {}) 0 twins.repos {}).2 = true ∧
      ¬ (Disk.applyAll {} (hydrateOn unixLib twins (fun _ => {}) 0 twins.repos {}).1).IsWorktreeOf
        (treePlace unixLib twins { url := "https://github.com/globex/api.git" })
        "https://github.com/globex/api.git" := by
  have hrun : ((Disk.applyAll {} (hydrateOn unixLib twins (fun _ => {}) 0 twins.repos {}).1).entries,
      (hydrateOn unixLib twins (fun _ => {}) 0 twins.repos {}).2) =
      ([(["workspace", ".bare", "api"], .clone 0 "https://github.com/acme/api.git" true),
        (["workspace", "api"], .tree 0)], true) := by decide +kernel
  obtain ⟨hentries, hok⟩ := Prod.mk.inj hrun
  refine ⟨hok, ?_⟩
  rintro ⟨id, bare, valid, htree, hclone⟩
  rw [hentries] at hclone
  simp at hclone

end Hydrator

end Uncworks
