import Uncworks.Go.Path
import Uncworks.Hydration.Hydrator

/-!
# The directories of a hydration

Where `Hydrator.Run` clones, adds worktrees and removes directories.  A repository is placed at its
path, or at the name that is derived from its URL; `validateRepoPath` checks the path, nothing
checks the name.
-/

namespace Uncworks

open Go List

inductive FsOp where
  | removeAll (dir : String)
  | clone (url dir : String)
  | addWorktree (bare tree : String)
  deriving DecidableEq

/-- How an operation ends: a command that is cut off may leave a directory, which git takes for a
repository or not, and a removal that is cut off keeps some places. -/
inductive Effect where
  | done
  | cut (left : Option Bool) (keep : List String → Bool)

inductive Stat where
  | found
  | missing
  | failed
  deriving DecidableEq

structure RepoAnswers where
  stat : Stat := .missing
  revParse : Bool := true
  removal : Effect := .done
  mkdir : Bool := true
  clone : Effect := .done
  /-- The removal after a failed clone. -/
  cleanup : Effect := .done
  /-- The worktree has a `.git` already. -/
  hasGit : Bool := false
  worktree : Effect := .done

namespace Hydrator

section

variable (a : RepoAnswers) (url dir : String)

def freshCloneOps : List (FsOp × Effect) × Bool :=
  if a.mkdir then
    match a.clone with
    | .done => ([(.clone url dir, .done)], true)
    | effect => ([(.clone url dir, effect), (.removeAll dir, a.cleanup)], false)
  else ([], false)

def cloneOps : List (FsOp × Effect) × Bool :=
  match a.stat with
  | .failed => ([], false)
  | .missing => freshCloneOps a url dir
  | .found =>
    if a.revParse then ([], true)
    else
      match a.removal with
      | .done => ((.removeAll dir, .done) :: (freshCloneOps a url dir).1, (freshCloneOps a url dir).2)
      | effect => ([(.removeAll dir, effect)], false)

def worktreeOps (bare tree : String) : List (FsOp × Effect) × Bool :=
  if a.hasGit then ([], true)
  else
    match a.worktree with
    | .done => ([(.addWorktree bare tree, .done)], true)
    | effect => ([(.addWorktree bare tree, effect)], false)

end

variable (lib : HydrationLib) (config : HydrationConfig)

def repoOps (a : RepoAnswers) (repo : RepoConfig) : List (FsOp × Effect) × Bool :=
  match validateRepoPath lib repo.path with
  | .error _ => ([], false)
  | .ok () =>
    let cloned := cloneOps a repo.url (bareDir lib config repo)
    let added := worktreeOps a (bareDir lib config repo) (worktreeDir lib config repo)
    if cloned.2 then (cloned.1 ++ added.1, added.2) else cloned

/-- The operations of `Run`, each with the index of its repository. -/
def runOps (answers : ℕ → RepoAnswers) : ℕ → List RepoConfig → List (ℕ × FsOp)
  | _, [] => []
  | i, repo :: repos =>
    let hydrated := repoOps lib config (answers i) repo
    hydrated.1.map (fun o => (i, o.1)) ++
      if hydrated.2 then runOps answers (i + 1) repos else []

/-! ## Places -/

def location (repo : RepoConfig) : List String := relElements (repoPath lib repo)

def bareRoot : String := join lib [config.workspaceDir, ".bare"]

/-- Clones and removals stay below the directory of the bare clones, worktrees below the workspace
and outside of that directory, and no removal takes away what belongs to another repository. -/
structure Contained (ops : List (ℕ × FsOp)) : Prop where
  cloned : ∀ i url dir, (i, .clone url dir) ∈ ops → StrictlyBelow (bareRoot lib config) dir
  removed : ∀ i dir, (i, .removeAll dir) ∈ ops → StrictlyBelow (bareRoot lib config) dir
  added : ∀ i bare tree, (i, .addWorktree bare tree) ∈ ops →
    StrictlyBelow config.workspaceDir tree ∧ ¬ Below (bareRoot lib config) tree
  spared : ∀ i dir, (i, .removeAll dir) ∈ ops → ∀ (j : ℕ) repo, config.repos[j]? = some repo → j ≠ i →
    ¬ Below dir (bareDir lib config repo) ∧ ¬ Below dir (worktreeDir lib config repo)

structure Placed (names : List String) : Prop where
  ne_nil : names ≠ []
  ne_up : names.head? ≠ some ".."
  ne_bare : names.head? ≠ some ".bare"

def Apart : Prop :=
  ∀ (i j : ℕ) first second, config.repos[i]? = some first → config.repos[j]? = some second → i ≠ j →
    ¬ location lib first <+: location lib second

/-! ## Accepted paths -/

variable {lib config} {repo : RepoConfig} {o : FsOp × Effect} {a : RepoAnswers}

theorem name_eq_slash {url} (h : '/' ∈ (repoNameFromURL lib url).toList) :
    repoNameFromURL lib url = "/" := by
  have hname : ∃ path, repoNameFromURL lib url = trimSuffix (base path) ".git" := by
    unfold repoNameFromURL
    split
    all_goals exact ⟨_, rfl⟩
  obtain ⟨path, hpath⟩ := hname
  rw [hpath] at h ⊢
  rw [base_eq_slash (mem_of_mem_trimSuffix h)]
  decide

theorem location_name (hpath : repo.path = "") (hne : location lib repo ≠ []) :
    '/' ∉ (repoPath lib repo).toList := by
  rw [location, repoPath, if_pos hpath] at hne
  rw [repoPath, if_pos hpath]
  intro hslash
  rw [name_eq_slash hslash] at hne
  exact hne (by decide)

theorem validateRepoPath_ok (hpath : repo.path ≠ "")
    (h : validateRepoPath lib repo.path = .ok ()) :
    isAbs repo.path = false ∧ contains repo.path ".." = false := by
  unfold validateRepoPath at h
  rw [if_neg hpath] at h
  split_ifs at h with habs hup hclean
  exact ⟨Bool.eq_false_iff.2 habs, Bool.eq_false_iff.2 hup⟩

theorem location_up (h : validateRepoPath lib repo.path = .ok ()) (hup : ".." ∈ location lib repo) :
    location lib repo = [".."] := by
  by_cases hpath : repo.path = ""
  · have hslash := location_name hpath (ne_nil_of_mem hup)
    rw [location, relElements, split_eq_singleton hslash] at hup ⊢
    obtain hmem | hmem := mem_of_mem_resolve false [] hup
    · cases hmem
    · rw [← mem_singleton.1 hmem]
      rfl
  · rw [location, repoPath, if_neg hpath] at hup
    obtain hmem | hmem := mem_of_mem_resolve false [] hup
    · cases hmem
    · have hcontains := contains_of_mem_split hmem
      rw [(validateRepoPath_ok hpath h).2] at hcontains
      cases hcontains

theorem isAbs_repoPath (h : validateRepoPath lib repo.path = .ok ())
    (hne : location lib repo ≠ []) : isAbs (repoPath lib repo) = false := by
  by_cases hpath : repo.path = ""
  · have hslash := location_name hpath hne
    rw [isAbs, hasPrefix]
    cases hchars : (repoPath lib repo).toList with
    | nil => rfl
    | cons c cs =>
      rw [hchars, mem_cons, not_or] at hslash
      simpa [isPrefixOf] using hslash.1
  · rw [repoPath, if_neg hpath]
    exact (validateRepoPath_ok hpath h).1

theorem Placed.not_mem_up (h : Placed (location lib repo)) : ".." ∉ location lib repo := fun hup =>
  h.ne_up ((settled_relElements _).head_up hup)

theorem location_proper (hup : ".." ∉ location lib repo) :
    ∀ name ∈ location lib repo, Proper name :=
  (settled_relElements _).proper hup

/-! ## Directories -/

section Directories

variable (hclean : lib.clean = clean)

include hclean

theorem join_eq (parts : List String) : join lib parts = joinPath parts := by
  rw [join, hclean]
  rfl

theorem isAbs_bareDir (repo : RepoConfig) :
    isAbs (bareDir lib config repo) = isAbs config.workspaceDir := by
  rw [bareDir, join_eq hclean]
  exact isAbs_joinPath _ _ fun _ => isAbs_joinPath _ _ (by simp)

theorem elements_bareDir (repo : RepoConfig) :
    elements (bareDir lib config repo) =
      resolve (isAbs config.workspaceDir) (elements config.workspaceDir ++ [".bare"])
        (location lib repo) := by
  rw [bareDir, join_eq hclean, elements_joinPath_cons _ _ fun _ => isAbs_joinPath _ _ (by simp),
    flatMap_cons, resolve_append, flatMap_singleton]
  rfl

theorem isAbs_bareRoot : isAbs (bareRoot lib config) = isAbs config.workspaceDir := by
  rw [bareRoot, join_eq hclean]
  exact isAbs_joinPath _ _ fun _ => by decide

theorem elements_bareRoot :
    elements (bareRoot lib config) = elements config.workspaceDir ++ [".bare"] := by
  rw [bareRoot, join_eq hclean, elements_joinPath_cons _ _ fun _ => by decide]
  rfl

theorem elements_bareDir_of_not_up (hup : ".." ∉ location lib repo) :
    elements (bareDir lib config repo) =
      elements config.workspaceDir ++ ".bare" :: location lib repo := by
  rw [elements_bareDir hclean, resolve_proper _ _ (location_proper hup), append_assoc]
  rfl

/-- An accepted repository is cloned below the directory of the clones, exactly if its location has
a name and is not `..`. -/
theorem strictlyBelow_bareDir_iff (h : validateRepoPath lib repo.path = .ok ()) :
    StrictlyBelow (bareRoot lib config) (bareDir lib config repo) ↔
      location lib repo ≠ [] ∧ location lib repo ≠ [".."] := by
  have habs : isAbs (bareDir lib config repo) = isAbs (bareRoot lib config) := by
    rw [isAbs_bareDir hclean, isAbs_bareRoot hclean]
  by_cases hup : ".." ∈ location lib repo
  · have hdir : elements (bareDir lib config repo) = elements config.workspaceDir := by
      rw [elements_bareDir hclean, location_up h hup]
      exact follow_up_concat _ _ (by decide)
    refine iff_of_false (fun hbelow => ?_) fun hne => hne.2 (location_up h hup)
    have hlength := hbelow.1.2.1.length_le
    rw [hdir, elements_bareRoot hclean] at hlength
    exact absurd hlength (by simp)
  · rw [Go.strictlyBelow_iff_prefix habs (elements_bareRoot hclean)
      (elements_bareDir_of_not_up hclean hup) (by simpa using hup)]
    have hne : location lib repo ≠ [".."] := fun heq => hup (by rw [heq]; exact mem_cons_self)
    simp [hne]

section Worktrees

variable {other : RepoConfig}
  (habs : config.workspaceDir = "" → isAbs (repoPath lib repo) = false)
  (hup : ".." ∉ location lib repo)

include habs

theorem isAbs_worktreeDir : isAbs (worktreeDir lib config repo) = isAbs config.workspaceDir := by
  rw [worktreeDir, join_eq hclean]
  refine isAbs_joinPath _ _ fun hempty => ?_
  rw [isAbs_joinPath _ _ fun _ => by decide, habs hempty]

include hup

theorem elements_worktreeDir :
    elements (worktreeDir lib config repo) = elements config.workspaceDir ++ location lib repo := by
  rw [worktreeDir, join_eq hclean, elements_joinPath_cons, flatMap_singleton, ← location,
    resolve_proper _ _ (location_proper hup)]
  intro hempty
  rw [isAbs_joinPath _ _ fun _ => by decide, habs hempty]

theorem strictlyBelow_worktreeDir (hne : location lib repo ≠ []) :
    StrictlyBelow config.workspaceDir (worktreeDir lib config repo) := by
  rw [Go.strictlyBelow_iff_prefix (isAbs_worktreeDir hclean habs) (append_nil _).symm
    (elements_worktreeDir hclean habs hup) hup]
  exact ⟨List.nil_prefix, hne⟩

theorem below_bareRoot_worktreeDir_iff :
    Below (bareRoot lib config) (worktreeDir lib config repo) ↔
      (location lib repo).head? = some ".bare" := by
  have habs' : isAbs (worktreeDir lib config repo) = isAbs (bareRoot lib config) := by
    rw [isAbs_worktreeDir hclean habs, isAbs_bareRoot hclean]
  rw [Go.below_iff_prefix habs' (elements_bareRoot hclean) (elements_worktreeDir hclean habs hup) hup]
  cases location lib repo with
  | nil => simp
  | cons name names => simp [eq_comm]

theorem below_bareDir_worktreeDir_iff (hother : ".." ∉ location lib other) :
    Below (bareDir lib config other) (worktreeDir lib config repo) ↔
      ".bare" :: location lib other <+: location lib repo := by
  have habs' : isAbs (worktreeDir lib config repo) = isAbs (bareDir lib config other) := by
    rw [isAbs_worktreeDir hclean habs, isAbs_bareDir hclean]
  exact below_iff_prefix habs' (elements_bareDir_of_not_up hclean hother)
    (elements_worktreeDir hclean habs hup) hup

end Worktrees

theorem below_bareDir_iff {other} (hup : ".." ∉ location lib repo)
    (hother : ".." ∉ location lib other) :
    Below (bareDir lib config other) (bareDir lib config repo) ↔
      location lib other <+: location lib repo := by
  have habs : isAbs (bareDir lib config repo) = isAbs (bareDir lib config other) := by
    rw [isAbs_bareDir hclean, isAbs_bareDir hclean]
  rw [Go.below_iff_prefix habs (elements_bareDir_of_not_up hclean hother)
    (elements_bareDir_of_not_up hclean hup) (by simpa using hup), cons_prefix_cons]
  simp

theorem placed_iff (h : validateRepoPath lib repo.path = .ok ()) :
    Placed (location lib repo) ↔
      StrictlyBelow (bareRoot lib config) (bareDir lib config repo) ∧
      StrictlyBelow config.workspaceDir (worktreeDir lib config repo) ∧
      ¬ Below (bareRoot lib config) (worktreeDir lib config repo) := by
  rw [strictlyBelow_bareDir_iff hclean h]
  constructor
  · intro hplaced
    have hup := hplaced.not_mem_up
    have habs := isAbs_repoPath h hplaced.ne_nil
    refine ⟨⟨hplaced.ne_nil, fun heq => hup (by rw [heq]; exact mem_cons_self)⟩,
      strictlyBelow_worktreeDir hclean (fun _ => habs) hup hplaced.ne_nil, ?_⟩
    rw [below_bareRoot_worktreeDir_iff hclean (fun _ => habs) hup]
    exact hplaced.ne_bare
  · rintro ⟨⟨hne, hup⟩, -, hbare⟩
    have hmem : ".." ∉ location lib repo := fun hmem => hup (location_up h hmem)
    rw [below_bareRoot_worktreeDir_iff hclean (fun _ => isAbs_repoPath h hne) hmem] at hbare
    exact ⟨hne, fun hhead => hmem (mem_of_head? hhead), hbare⟩

end Directories

/-! ## Operations -/

def OwnOp (lib : HydrationLib) (config : HydrationConfig) (repo : RepoConfig) (op : FsOp) : Prop :=
  op = .removeAll (bareDir lib config repo) ∨ op = .clone repo.url (bareDir lib config repo) ∨
    op = .addWorktree (bareDir lib config repo) (worktreeDir lib config repo)

theorem mem_freshCloneOps {url dir} (h : o ∈ (freshCloneOps a url dir).1) :
    o.1 = .removeAll dir ∨ o.1 = .clone url dir := by
  unfold freshCloneOps at h
  split_ifs at h
  · split at h
    · exact .inr (by rw [mem_singleton.1 h])
    · obtain rfl | h := mem_cons.1 h
      · exact .inr rfl
      · exact .inl (by rw [mem_singleton.1 h])
  · cases h

theorem mem_cloneOps {url dir} (h : o ∈ (cloneOps a url dir).1) :
    o.1 = .removeAll dir ∨ o.1 = .clone url dir := by
  unfold cloneOps at h
  split at h
  · cases h
  · exact mem_freshCloneOps h
  · split_ifs at h
    · cases h
    · split at h
      · obtain rfl | h := mem_cons.1 h
        · exact .inl rfl
        · exact mem_freshCloneOps h
      · exact .inl (by rw [mem_singleton.1 h])

theorem mem_worktreeOps {bare tree} (h : o ∈ (worktreeOps a bare tree).1) :
    o.1 = .addWorktree bare tree := by
  unfold worktreeOps at h
  split_ifs at h
  · cases h
  · split at h <;> rw [mem_singleton.1 h]

theorem mem_repoOps (h : o ∈ (repoOps lib config a repo).1) : OwnOp lib config repo o.1 := by
  unfold repoOps at h
  split at h
  · cases h
  · dsimp only at h
    split_ifs at h
    · rw [mem_append] at h
      obtain h | h := h
      · exact (mem_cloneOps h).imp_right .inl
      · exact .inr (.inr (mem_worktreeOps h))
    · exact (mem_cloneOps h).imp_right .inl

theorem mem_runOps {answers repos k i op} (h : (i, op) ∈ runOps lib config answers k repos) :
    ∃ n repo, i = k + n ∧ repos[n]? = some repo ∧ OwnOp lib config repo op := by
  induction repos generalizing k with
  | nil => cases h
  | cons repo repos ih =>
    rw [runOps, mem_append] at h
    obtain h | h := h
    · obtain ⟨o, ho, heq⟩ := mem_map.1 h
      obtain ⟨rfl, rfl⟩ := Prod.mk.inj heq
      exact ⟨0, repo, rfl, rfl, mem_repoOps ho⟩
    · split_ifs at h
      · obtain ⟨n, other, rfl, hother, hop⟩ := ih h
        exact ⟨n + 1, other, by omega, hother, hop⟩
      · cases h

def replacing : RepoAnswers := { stat := .found, revParse := false }

theorem repoOps_replacing (h : validateRepoPath lib repo.path = .ok ()) :
    repoOps lib config replacing repo =
      ([(.removeAll (bareDir lib config repo), .done),
        (.clone repo.url (bareDir lib config repo), .done),
        (.addWorktree (bareDir lib config repo) (worktreeDir lib config repo), .done)], true) := by
  rw [repoOps, h]
  rfl

theorem mem_runOps_replacing {repos k n op}
    (haccepted : ∀ repo ∈ repos, validateRepoPath lib repo.path = .ok ())
    (hrepo : repos[n]? = some repo) (hop : OwnOp lib config repo op) :
    (k + n, op) ∈ runOps lib config (fun _ => replacing) k repos := by
  induction repos generalizing k n with
  | nil => simp at hrepo
  | cons first repos ih =>
    rw [forall_mem_cons] at haccepted
    rw [runOps, repoOps_replacing haccepted.1, mem_append]
    cases n with
    | zero =>
      obtain rfl : first = repo := Option.some.inj hrepo
      obtain rfl | rfl | rfl := hop <;> simp
    | succ n =>
      right
      have hmem := ih (k := k + 1) haccepted.2 hrepo
      rwa [show k + (n + 1) = k + 1 + n by omega]

/-! ## Containment -/

section Containment

variable (hclean : lib.clean = clean)
  (haccepted : ∀ repo ∈ config.repos, validateRepoPath lib repo.path = .ok ())

include hclean haccepted

theorem placed_of_contained
    (h : Contained lib config (runOps lib config (fun _ => replacing) 0 config.repos)) :
    (∀ repo ∈ config.repos, Placed (location lib repo)) ∧ Apart lib config := by
  have hmem : ∀ n repo op, config.repos[n]? = some repo → OwnOp lib config repo op →
      (n, op) ∈ runOps lib config (fun _ => replacing) 0 config.repos := by
    intro n repo op hrepo hop
    have hmem := mem_runOps_replacing (k := 0) haccepted hrepo hop
    rwa [Nat.zero_add] at hmem
  have hplaced : ∀ repo ∈ config.repos, Placed (location lib repo) := by
    intro repo hrepo
    obtain ⟨n, hn⟩ := mem_iff_getElem?.1 hrepo
    rw [placed_iff hclean (haccepted repo hrepo)]
    exact ⟨h.removed _ _ (hmem _ _ _ hn (.inl rfl)), h.added _ _ _ (hmem _ _ _ hn (.inr (.inr rfl)))⟩
  refine ⟨hplaced, fun i j first second hi hj hij hinitial => ?_⟩
  refine (h.spared i _ (hmem _ _ _ hi (.inl rfl)) j second hj hij.symm).1 ?_
  rwa [below_bareDir_iff hclean (hplaced _ (mem_of_getElem? hj)).not_mem_up
    (hplaced _ (mem_of_getElem? hi)).not_mem_up]

theorem contained_of_placed (hplaced : ∀ repo ∈ config.repos, Placed (location lib repo))
    (hapart : Apart lib config) (answers : ℕ → RepoAnswers) :
    Contained lib config (runOps lib config answers 0 config.repos) := by
  have hown : ∀ i op, (i, op) ∈ runOps lib config answers 0 config.repos →
      ∃ repo, config.repos[i]? = some repo ∧ OwnOp lib config repo op := by
    intro i op hop
    obtain ⟨n, repo, rfl, hrepo, hown⟩ := mem_runOps hop
    exact ⟨repo, by rwa [Nat.zero_add], hown⟩
  have hdirs : ∀ repo ∈ config.repos,
      StrictlyBelow (bareRoot lib config) (bareDir lib config repo) ∧
      StrictlyBelow config.workspaceDir (worktreeDir lib config repo) ∧
      ¬ Below (bareRoot lib config) (worktreeDir lib config repo) := fun repo hrepo =>
    (placed_iff hclean (haccepted repo hrepo)).1 (hplaced repo hrepo)
  constructor
  case cloned =>
    intro i url dir hop
    obtain ⟨repo, hrepo, hop⟩ := hown i _ hop
    obtain ⟨-, rfl⟩ : url = repo.url ∧ dir = bareDir lib config repo := by simpa [OwnOp] using hop
    exact (hdirs repo (mem_of_getElem? hrepo)).1
  case removed =>
    intro i dir hop
    obtain ⟨repo, hrepo, hop⟩ := hown i _ hop
    obtain rfl : dir = bareDir lib config repo := by simpa [OwnOp] using hop
    exact (hdirs repo (mem_of_getElem? hrepo)).1
  case added =>
    intro i bare tree hop
    obtain ⟨repo, hrepo, hop⟩ := hown i _ hop
    obtain ⟨-, rfl⟩ : bare = bareDir lib config repo ∧ tree = worktreeDir lib config repo := by
      simpa [OwnOp] using hop
    exact (hdirs repo (mem_of_getElem? hrepo)).2
  case spared =>
    intro i dir hop j other hother hij
    obtain ⟨repo, hrepo, hop⟩ := hown i _ hop
    obtain rfl : dir = bareDir lib config repo := by simpa [OwnOp] using hop
    have hmem := mem_of_getElem? hrepo
    have hmem' := mem_of_getElem? hother
    rw [below_bareDir_iff hclean (hplaced _ hmem').not_mem_up (hplaced _ hmem).not_mem_up,
      below_bareDir_worktreeDir_iff hclean
        (fun _ => isAbs_repoPath (haccepted _ hmem') (hplaced _ hmem').ne_nil)
        (hplaced _ hmem').not_mem_up (hplaced _ hmem).not_mem_up]
    refine ⟨hapart i j repo other hrepo hother hij.symm, fun hinitial => ?_⟩
    obtain ⟨rest, hrest⟩ := hinitial
    exact (hplaced _ hmem').ne_bare (by rw [← hrest]; rfl)

/-- Whatever the file system and git answer, a hydration of accepted paths is contained, exactly if
every repository is placed inside of the workspace and outside of the bare clones, and none at or
above another one. -/
theorem contained_iff :
    (∀ answers, Contained lib config (runOps lib config answers 0 config.repos)) ↔
      (∀ repo ∈ config.repos, Placed (location lib repo)) ∧ Apart lib config :=
  ⟨fun h => placed_of_contained hclean haccepted (h _),
    fun h => contained_of_placed hclean haccepted h.1 h.2⟩

end Containment

def unixLib : HydrationLib where
  toLowerRune c := c
  urlPath _ := none
  quote s := s
  schemeHost _ := none
  withPassword url _ := url
  withPassword_inj _ h := nomatch h
  clean := clean
  marshalManifest _ := ""
  marshalIncludes _ := ""
  marshalMetadata _ := ""

def sideBySide : HydrationConfig where
  repos := [{ url := "https://github.com/acme/api.git", path := "shop/api" },
    { url := "https://github.com/acme/web.git" }]

theorem apart_sideBySide : Apart unixLib sideBySide := by
  intro i j first second hi hj hij
  have hi' : i < 2 := (List.getElem?_eq_some_iff.1 hi).1
  have hj' : j < 2 := (List.getElem?_eq_some_iff.1 hj).1
  obtain ⟨rfl, rfl⟩ | ⟨rfl, rfl⟩ : i = 0 ∧ j = 1 ∨ i = 1 ∧ j = 0 := by omega
  all_goals
    rw [← Option.some.inj hi, ← Option.some.inj hj]
    decide

theorem contained_sideBySide :
    (∀ repo ∈ sideBySide.repos, validateRepoPath unixLib repo.path = .ok ()) ∧
      ∀ answers, Contained unixLib sideBySide
        (runOps unixLib sideBySide answers 0 sideBySide.repos) := by
  have haccepted : ∀ repo ∈ sideBySide.repos, validateRepoPath unixLib repo.path = .ok () := by
    decide
  refine ⟨haccepted, (contained_iff rfl haccepted).2 ⟨?_, apart_sideBySide⟩⟩
  rw [sideBySide, List.forall_mem_cons, List.forall_mem_singleton]
  exact ⟨⟨by decide, by decide, by decide⟩, ⟨by decide, by decide, by decide⟩⟩

def nested : HydrationConfig where
  repos := [{ url := "https://github.com/acme/api.git", path := "shop/api" },
    { url := "https://github.com/acme/shop.git", path := "shop" }]

def upward : HydrationConfig where
  repos := [{ url := "https://git.acme.com/shop/.." }]

/-- The directory `.bare/shop` is no repository once `shop/api` is cloned, so it is removed with the
clone in it.  A URL that ends in `..` makes a hydration remove its workspace. -/
theorem hydration_not_contained :
    ((∀ repo ∈ nested.repos, validateRepoPath unixLib repo.path = .ok ()) ∧
      ¬ Contained unixLib nested
        (runOps unixLib nested (fun i => if i = 1 then replacing else {}) 0 nested.repos)) ∧
    (∀ repo ∈ upward.repos, validateRepoPath unixLib repo.path = .ok ()) ∧
      (0, .removeAll "/workspace") ∈
        runOps unixLib upward (fun _ => replacing) 0 upward.repos ∧
      ¬ Contained unixLib upward (runOps unixLib upward (fun _ => replacing) 0 upward.repos) := by
  refine ⟨⟨by decide, fun h => ?_⟩, by decide, by decide, fun h => ?_⟩
  · exact (h.spared 1 "/workspace/.bare/shop" (by decide) 0 _ rfl (by decide)).1 (by decide)
  · exact absurd (h.removed 0 "/workspace" (by decide)) (by decide)

end Hydrator

end Uncworks
