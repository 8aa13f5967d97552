import Uncworks.Go.Strings

/-!
# Hydration

`Hydrator.Run`, which the init container of an agent pod executes.  It makes a bare clone and a
worktree of every repository, and then writes the spec, the manifest and what else an agent finds in
its workspace.

What git, devbox and the code search do is given by `Tools`.  `git clone --bare U D` stores `U` as the
origin of `D`; the other commands copy no URL.  A failed git command is taken to leave nothing behind,
and the errors of the file system are left out.
-/

namespace Uncworks

structure RepoConfig where
  url : String
  branch : String := ""
  path : String := ""

structure HydrationConfig where
  repos : List RepoConfig
  workspaceDir : String := "/workspace"
  devboxConfig : String := ""
  specContent : String := ""

/-- The environment variables it reads, apart from the token. -/
structure HydrationEnv where
  agentRunID : String := ""
  repos : String := ""
  prompt : String := ""
  agentType : String := ""
  modelTier : String := ""
  cudgelEndpoint : String := ""

structure ManifestRepo where
  path : String
  url : String
  branch : String

structure Manifest where
  repos : List ManifestRepo
  devboxSources : List String

structure RunMetadata where
  agentRunID : String
  repos : String
  prompt : String
  modelTier : String

structure HydrationLib extends Go.Lib where
  /-- The scheme and the host of a URL that `url.Parse` accepts. -/
  schemeHost : String → Option (String × String)
  /-- A URL with the user `x-access-token` and a password. -/
  withPassword : String → String → String
  /-- The password can be read off such a URL. -/
  withPassword_inj : ∀ url, (schemeHost url).isSome → Function.Injective (withPassword url)
  /-- `filepath.Clean`. -/
  clean : String → String
  /-- The files that are marshalled. -/
  marshalManifest : Manifest → String
  marshalIncludes : List String → String
  marshalMetadata : RunMetadata → String

inductive BareDir (R : Type*) where
  | absent
  | broken
  | clone (repo : R)

/-- What is in a workspace, apart from the origins of its clones. -/
structure Contents (R T : Type*) where
  bare : String → BareDir R := fun _ => .absent
  trees : String → Option T := fun _ => none
  files : String → Option String := fun _ => none
  dirs : List String := []

/-- The workspace volume; `origin` is the `remote.origin.url` of each clone. -/
@[ext]
structure Volume (R T : Type*) where
  contents : Contents R T := {}
  origin : String → Option String := fun _ => none

inductive HydrationError where
  | input (text : String)
  | git (text : String)
  | devbox (text : String)

structure Hydrated (R T : Type*) where
  workspace : Volume R T
  error : Option HydrationError := none

def Hydrated.gitSucceeds {R T : Type*} (h : Hydrated R T) : Bool :=
  match h.error with
  | some (.git _) => false
  | _ => true

structure Tools (R T : Type*) where
  /-- What `git clone --bare` transfers from a URL. -/
  transfer : String → Except String R
  /-- `git symbolic-ref --short HEAD`. -/
  symbolicRef : R → Option String
  /-- `git worktree add -b`: the repository with the new branch, and the worktree. -/
  addWorktree : R → String → String → Except String (R × T)
  /-- A file is in a worktree. -/
  hasFile : T → String → Bool
  /-- `devbox install` in a directory: the worktrees and files after it, and its error. -/
  install : String → (String → Option T) → (String → Option String) →
    (String → Option T) × (String → Option String) × Option String
  /-- The entries for the symbols that the code search finds. -/
  semanticSearch : String → ℕ → Option (List String)

namespace Hydrator

variable {R T : Type*} (lib : HydrationLib) (tools : Tools R T) (env : HydrationEnv)
  (config : HydrationConfig) (token : String)

def join (parts : List String) : String := lib.clean ("/".intercalate (parts.filter (· ≠ "")))

def repoNameFromURL (repoURL : String) : String :=
  match lib.urlPath repoURL with
  | some path => Go.trimSuffix (Go.base (if path ≠ "" then path else repoURL)) ".git"
  | none => Go.trimSuffix (Go.base repoURL) ".git"

def repoPath (repo : RepoConfig) : String :=
  if repo.path = "" then repoNameFromURL lib repo.url else repo.path

def bareDir (repo : RepoConfig) : String :=
  join lib [config.workspaceDir, ".bare", repoPath lib repo]

def worktreeDir (repo : RepoConfig) : String := join lib [config.workspaceDir, repoPath lib repo]

def validateRepoPath (path : String) : Except String Unit :=
  if path = "" then .ok ()
  else if Go.hasPrefix path "/" then
    .error s!"invalid input: repository path must be relative, got {lib.quote path}"
  else if Go.contains path ".." then
    .error s!"invalid input: path traversal not allowed in repository path {lib.quote path}"
  else if Go.hasPrefix (lib.clean path) ".." then
    .error s!"invalid input: repository path would escape workspace: {lib.quote path}"
  else .ok ()

/-! ## Clones and worktrees -/

def injectTokenInURL (repoURL : String) : String :=
  match lib.schemeHost repoURL with
  | none => repoURL
  | some (scheme, host) =>
    if scheme ≠ "https" then repoURL
    else if host ≠ "github.com" then repoURL
    else lib.withPassword repoURL token

def cloneURL (repoURL : String) : String :=
  if token ≠ "" then injectTokenInURL lib token repoURL else repoURL

def place (w : Volume R T) (dir : String) (bare : BareDir R) (origin : Option String) :
    Volume R T where
  contents := { w.contents with bare := Function.update w.contents.bare dir bare }
  origin := Function.update w.origin dir origin

def hasClone (c : Contents R T) (dir : String) : Bool :=
  match c.bare dir with
  | .clone _ => true
  | _ => false

def cloneRepo (repoURL dir : String) (w : Volume R T) : Volume R T × Option String :=
  if hasClone w.contents dir then (w, none)
  else
    let url := cloneURL lib token repoURL
    match tools.transfer url with
    | .error err => (place w dir .absent none, some s!"clone repo: {err}")
    | .ok repo => (place w dir (.clone repo) (some url), none)

def worktreeBranches (branch : String) (repo : R) : String × String :=
  let base := if branch ≠ "" then branch
    else match tools.symbolicRef repo with
      | some out => if out ≠ "" then out else "main"
      | none => "main"
  (base, if env.agentRunID = "" then s!"aot/{base}-local" else s!"aot/{env.agentRunID}")

def createWorktree (dir tree branch : String) (c : Contents R T) : Contents R T × Option String :=
  if (c.trees tree).isSome then (c, none)
  else match c.bare dir with
    | .clone repo =>
      let branches := worktreeBranches tools env branch repo
      match tools.addWorktree repo branches.2 branches.1 with
      | .error err => (c, some s!"create worktree: {err}")
      | .ok (repo, worktree) =>
        ({ c with
            bare := Function.update c.bare dir (.clone repo)
            trees := Function.update c.trees tree (some worktree) }, none)
    | _ => (c, some "create worktree: not a git repository")

/-- A repository is cloned and gets its worktree: the body of the loop of `Run`. -/
def hydrateRepo (i : ℕ) (repo : RepoConfig) (w : Volume R T) : Hydrated R T :=
  match validateRepoPath lib repo.path with
  | .error err => ⟨w, some (.input s!"repo {i}: {err}")⟩
  | .ok () =>
    let cloned := cloneRepo lib tools token repo.url (bareDir lib config repo) w
    match cloned.2 with
    | some err => ⟨cloned.1, some (.git s!"clone repo {i} ({repo.url}): {err}")⟩
    | none =>
      let added := createWorktree tools env (bareDir lib config repo) (worktreeDir lib config repo)
        repo.branch cloned.1.contents
      ⟨{ cloned.1 with contents := added.1 },
        added.2.map fun err => .git s!"create worktree {i} ({repo.url}): {err}"⟩

def hydrateRepos (i : ℕ) : List RepoConfig → Volume R T → Hydrated R T
  | [], w => ⟨w, none⟩
  | repo :: repos, w =>
    let hydrated := hydrateRepo lib tools env config token i repo w
    match hydrated.error with
    | some _ => hydrated
    | none => hydrateRepos (i + 1) repos hydrated.workspace

/-! ## The other files -/

def write (path : List String) (text : String) (c : Contents R T) : Contents R T :=
  { c with files := Function.update c.files (join lib (config.workspaceDir :: path)) (some text) }

def writeSpec (c : Contents R T) : Contents R T :=
  write lib config ["codespeak.json"] "\x7b\"specs\": [\"spec/main.cs.md\"]\x7d\n"
    (write lib config ["spec", "main.cs.md"] config.specContent c)

def stat (dir name : String) (c : Contents R T) : Bool :=
  (c.files (join lib [dir, name])).isSome || (c.trees dir).any fun t => tools.hasFile t name

section

variable (c : Contents R T)

def devboxFiles : List String :=
  let found := config.repos.filter fun repo =>
    stat lib tools (worktreeDir lib config repo) "devbox.json" c
  found.map fun repo => join lib [repoPath lib repo, "devbox.json"]

def generateManifest : Contents R T :=
  write lib config ["uncspace.yaml"]
    (lib.marshalManifest
      { repos := config.repos.map fun repo => ⟨repoPath lib repo, repo.url, repo.branch⟩
        devboxSources := devboxFiles lib tools config c }) c

def writeDevcontainer : Contents R T :=
  write lib config [".devcontainer", "devcontainer.json"]
    ("\x7b\n  \"name\": \"aot-run\",\n  \"image\": \"aot-agent:local\",\n" ++
      "  \"workspaceFolder\": \"/workspace\",\n  \"postStartCommand\": \"devbox install || true\",\n" ++
      "  \"remoteUser\": \"root\"\n\x7d\n") c

def makeDirs : Contents R T :=
  let dirs := ["traces", "logs", "context"].map fun dir =>
    join lib [config.workspaceDir, ".aot", dir]
  { c with dirs := c.dirs ++ dirs }

def writeMetadata : Contents R T :=
  write lib config [".aot", "metadata.json"]
    (lib.marshalMetadata ⟨env.agentRunID, env.repos, env.prompt, env.modelTier⟩ ++ "\n") c

/-- The loop of `formatCodebaseContext`: it stops before the text gets too long. -/
def appendEntries (text : String) : List String → String
  | [] => text
  | entry :: entries =>
    if 16000 < text.utf8ByteSize + entry.utf8ByteSize then text
    else appendEntries (text ++ entry) entries

def formatCodebaseContext (entries : List String) : String :=
  appendEntries ("# Codebase Context (Semantic Search)\n\n" ++
    "The following code symbols are semantically relevant to this run's task.\n" ++
    "They were retrieved from the cudgel code search index at run start.\n\n") entries

def seedCodebaseContext : Contents R T :=
  if env.cudgelEndpoint = "" ∨ Go.trimSpace env.prompt = "" then c
  else
    let agentType := lib.toLower (if env.agentType = "" then env.modelTier else env.agentType)
    match tools.semanticSearch env.prompt
        (if agentType = "senior" ∨ agentType = "orchestrator" then 20 else 10) with
    | some (entry :: entries) =>
      write lib config [".aot", "context", "codebase.md"] (formatCodebaseContext (entry :: entries)) c
    | _ => c

end

def install (dir : String) (c : Contents R T) : Contents R T × Option String :=
  let installed := tools.install dir c.trees c.files
  ({ c with trees := installed.1, files := installed.2.1 }, installed.2.2)

def primaryWorktreePath : String :=
  match config.repos with
  | [] => config.workspaceDir
  | repo :: _ => worktreeDir lib config repo

def setupDevbox (c : Contents R T) : Contents R T × Option String :=
  let dir := primaryWorktreePath lib config
  if stat lib tools dir config.devboxConfig c then
    ((install tools dir c).1, (install tools dir c).2.map fun err => s!"setup devbox: {err}")
  else
    (c, some ("not found: devbox config not found: " ++ join lib [dir, config.devboxConfig]))

/-- `composeDevbox`: a failed installation is only logged. -/
def composeDevbox (c : Contents R T) : Contents R T :=
  match devboxFiles lib tools config c with
  | [] => c
  | includes =>
    let c := write lib config ["devbox.json"] (lib.marshalIncludes includes ++ "\n") c
    (install tools config.workspaceDir c).1

def finish (c : Contents R T) : Contents R T × Option HydrationError :=
  let c := if config.specContent ≠ "" then writeSpec lib config c else c
  let c := generateManifest lib tools config c
  let c := writeMetadata lib env config (makeDirs lib config (writeDevcontainer lib config c))
  let c := seedCodebaseContext lib tools env config c
  if config.devboxConfig ≠ "" then
    let setup := setupDevbox lib tools config c
    (setup.1, setup.2.map fun err => .devbox s!"setup devbox: {err}")
  else if config.repos ≠ [] then (composeDevbox lib tools config c, none)
  else (c, none)

def run (w : Volume R T) : Hydrated R T :=
  let hydrated := hydrateRepos lib tools env config token 0 config.repos w
  match hydrated.error with
  | some _ => hydrated
  | none =>
    let finished := finish lib tools env config hydrated.workspace.contents
    ⟨{ hydrated.workspace with contents := finished.1 }, finished.2⟩

end Hydrator

end Uncworks
