import Uncworks.Go.Path

/-!
# Files of a workspace

While the pod of a run is running, `handleListFiles` and `handleFileContent` let it execute `ls`
and `cat`; when it is scaled to zero they read the volume of the workspace on the host.  Both check
that the path of the request, cleaned, begins with `/workspace`, as a text.
-/

namespace Uncworks

open Go

/-! ## The handlers -/

/-- The path of a volume on its host; the API server does not accept an empty one. -/
structure HostPath where
  path : String
  ne_empty : path ≠ ""

structure FileCalls where
  replicas : Except String ℤ
  podName : Except String String
  hostPath : Except String HostPath
  /-- The working directory of the server, which makes paths absolute. -/
  workingDir : Option String

inductive FileAccess
  | reject (status : ℕ) (error : String)
  | exec (podName : String) (command : List String)
  | disk (path : String)
  deriving DecidableEq

def absPath (workingDir : Option String) (path : String) : Option String :=
  if isAbs path then some (clean path) else workingDir.map fun dir => joinPath [dir, path]

/-- Where the handlers differ: what an empty path means, what the pod executes, and how a path is
made relative to the workspace. -/
structure FileRoute where
  emptyPath : Option String
  command : String → List String
  relative : String → String

namespace FileRoute

variable (route : FileRoute) (lib : Lib)

def pathOf (path : String) : Option String := if path = "" then route.emptyPath else some path

def diskPath? (workingDir : Option String) (h : HostPath) (path : String) : Option String :=
  let diskPath := joinPath [h.path, route.relative path]
  if (absPath workingDir diskPath).any (hasPrefix · h.path) then some diskPath else none

def serve (c : FileCalls) (runID path : String) : FileAccess :=
  match route.pathOf path with
  | none => .reject 400 "path query parameter is required"
  | some path =>
    if !hasPrefix (clean path) "/workspace" then .reject 400 "path must be within /workspace"
    else if c.replicas.toOption.any (0 < ·) then
      match c.podName with
      | .error err => .reject 404 s!"agent run {lib.quote runID} not found: {err}"
      | .ok podName =>
        if podName = "" then .reject 404 "pod not available for this agent run"
        else .exec podName (route.command path)
    else
      match c.hostPath with
      | .error err =>
        .reject 404 (s!"workspace not found for run {lib.quote runID}: {err} " ++
          "(run may be archived or deleted)")
      | .ok h =>
        match route.diskPath? c.workingDir h path with
        | none => .reject 400 "invalid path"
        | some diskPath => .disk diskPath

end FileRoute

def listRoute : FileRoute where
  emptyPath := some "/workspace"
  command dirPath := ["ls", "-la", "--time-style=long-iso", dirPath]
  relative dirPath := trimPrefix (trimPrefix dirPath "/workspace") "/"

def contentRoute : FileRoute where
  emptyPath := none
  command filePath := ["cat", filePath]
  relative filePath := trimPrefix filePath "/workspace/"

def handleListFiles : Lib → FileCalls → (runID path : String) → FileAccess := listRoute.serve

def handleFileContent : Lib → FileCalls → (runID path : String) → FileAccess := contentRoute.serve

/-! ## The workspace -/

def InWorkspace (path : String) : Prop :=
  clean path = "/workspace" ∨ hasPrefix (clean path) "/workspace/"

instance (path : String) : Decidable (InWorkspace path) := inferInstanceAs (Decidable (_ ∨ _))

def workspaceRel (path : String) : String := trimPrefix (trimPrefix (clean path) "/workspace") "/"

/-- The pod is asked for a path of the workspace, and what is read on the host is the same path
below that of the volume. -/
def FileAccess.Confined (path : String) (h : HostPath) : FileAccess → Prop
  | .reject _ _ => True
  | .exec _ _ => InWorkspace path
  | .disk diskPath => InWorkspace path ∧ diskPath = joinPath [h.path, workspaceRel path] ∧
      Below h.path diskPath

/-- All accesses for the path `p` that a request means stay within the workspace, whether the pod is
running or not. -/
def Confines (handler : FileCalls → (runID path : String) → FileAccess) (workingDir : Option String)
    (h : HostPath) (path p : String) : Prop :=
  ∀ replicas podName runID,
    (handler ⟨replicas, podName, .ok h, workingDir⟩ runID path).Confined p h

/-- A relative path climbs out of the workspace and leads back: the volume is the entry `workspace`
of the directory to which it climbs. -/
def LeadsBack (h : HostPath) (rel : String) : Prop :=
  ∃ k t, relElements rel = List.replicate k ".." ++ "workspace" :: t ∧
    resolve (isAbs h.path) (elements h.path) (List.replicate k "..") ++ ["workspace"] =
      elements h.path

/-! ## Elements -/

section Elements

variable {path : String} {t : List String}

theorem clean_of_elements (habs : isAbs path) (h : elements path = "workspace" :: t) :
    clean path = "/workspace" ∧ t = [] ∨
      clean path = "/workspace" ++ ("/" ++ "/".intercalate t) ∧ t ≠ [] := by
  rw [clean, if_pos habs, h]
  cases t with
  | nil => exact .inl ⟨by decide, rfl⟩
  | cons name t =>
    refine .inr ⟨?_, List.cons_ne_nil _ _⟩
    rw [intercalate_cons_cons]
    rfl

theorem inWorkspace_iff :
    InWorkspace path ↔ isAbs path ∧ ∃ t, elements path = "workspace" :: t := by
  constructor
  · rintro (hclean | hbelow)
    · refine ⟨?_, [], ?_⟩
      · rw [← isAbs_clean, hclean]
        decide
      · rw [← elements_clean, hclean]
        decide
    · obtain ⟨rest, hrest⟩ := hasPrefix_iff.1 hbelow
      have habs : isAbs path := by
        rw [← isAbs_clean, hrest]
        exact isAbs_append (by decide) rest
      refine ⟨habs, split '/' rest, ?_⟩
      have hjoin : "/".intercalate (elements path) = "workspace" ++ "/" ++ rest := by
        rw [clean, if_pos habs, ← String.toList_inj] at hrest
        rw [← String.toList_inj]
        simpa using hrest
      have hne : elements path ≠ [] := by
        intro hnil
        have hchars := congrArg String.toList hjoin
        simp [hnil] at hchars
      rw [← split_slash_intercalate (settled_elements path).not_mem_slash hne, hjoin,
        split_append_slash]
      rfl
  · rintro ⟨habs, t, ht⟩
    obtain ⟨hclean, -⟩ | ⟨hclean, -⟩ := clean_of_elements habs ht
    · exact .inl hclean
    · refine .inr (hasPrefix_iff.2 ⟨"/".intercalate t, ?_⟩)
      rw [hclean]
      rfl

theorem workspaceRel_eq (habs : isAbs path) (h : elements path = "workspace" :: t) :
    workspaceRel path = "/".intercalate t := by
  obtain ⟨hclean, rfl⟩ | ⟨hclean, -⟩ := clean_of_elements habs h
  · rw [workspaceRel, hclean]
    decide
  · rw [workspaceRel, hclean, trimPrefix_append, trimPrefix_append]

theorem proper_of_elements (habs : isAbs path) (h : elements path = "workspace" :: t) :
    ∀ n ∈ t, Proper n ∧ '/' ∉ n.toList := by
  have hsettled := settled_elements path
  rw [habs] at hsettled
  intro n hn
  have hmem := h ▸ List.mem_cons_of_mem _ hn
  exact ⟨hsettled.proper hsettled.not_mem_up n hmem, hsettled.not_mem_slash n hmem⟩

theorem proper_workspace : Proper "workspace" := by
  simp [Proper]

/-! ## Relative paths -/

variable (h : elements path = "workspace" :: t) {R : List String}
include h

theorem climb_of_root (hR : Settled false R) (hpath : elements path = resolve true [] R) :
    ∃ k, R = List.replicate k ".." ++ "workspace" :: t := by
  obtain ⟨k, s, rfl, hs⟩ := hR.eq_climb_append
  rw [h, resolve_climb_append hs, resolve_climb_root, List.nil_append] at hpath
  exact ⟨k, by rw [hpath]⟩

theorem climb_of_name {name : String} (hname : Proper name) (hR : Settled false R)
    (hpath : elements path = resolve true [name] R) :
    (".." ∉ R → name = "workspace" ∧ R = t) ∧
      (".." ∈ R → ∃ k, R = List.replicate (k + 1) ".." ++ "workspace" :: t) := by
  obtain ⟨k, s, rfl, hs⟩ := hR.eq_climb_append
  rw [h, resolve_climb_append hs] at hpath
  cases k with
  | zero =>
    refine ⟨fun _ => ?_, fun hup => ?_⟩
    · simpa [resolve, eq_comm] using hpath
    · exact absurd rfl (hs _ hup).2.2
  | succ k =>
    have hroot : resolve true [name] (List.replicate (k + 1) "..") = [] := by
      have hup : follow true [name] ".." = [] := follow_up_concat true [] hname.2.2
      rw [List.replicate_succ, resolve, List.foldl_cons, hup]
      exact resolve_climb_root
    rw [hroot, List.nil_append] at hpath
    exact ⟨fun hup => absurd (by simp) hup, fun _ => ⟨k, by rw [hpath]⟩⟩

theorem climb_of_workspace {rest} (hpath : path = "/workspace" ++ "/" ++ rest) :
    (".." ∉ relElements rest → relElements rest = t) ∧
      (".." ∈ relElements rest →
        ∃ k, relElements rest = List.replicate k ".." ++ "workspace" :: t) := by
  have habs : isAbs path := by
    rw [hpath]
    exact isAbs_append (by decide) _
  have helements : elements path = resolve true ["workspace"] (relElements rest) := by
    rw [elements, habs, hpath, split_append_slash, resolve_append, resolve_split]
    rfl
  obtain ⟨hdown, hup⟩ := climb_of_name h proper_workspace (settled_relElements rest) helements
  refine ⟨fun hno => (hdown hno).2, fun hyes => ?_⟩
  obtain ⟨k, hk⟩ := hup hyes
  exact ⟨k + 1, hk⟩

variable (habs : isAbs path)
include habs

theorem content_relative :
    (hasPrefix path "/workspace/" ∧ ".." ∉ relElements (contentRoute.relative path) →
      relElements (contentRoute.relative path) = t) ∧
    (¬ (hasPrefix path "/workspace/" ∧ ".." ∉ relElements (contentRoute.relative path)) →
      ∃ k, relElements (contentRoute.relative path) = List.replicate k ".." ++ "workspace" :: t) := by
  by_cases hpre : hasPrefix path "/workspace/"
  · obtain ⟨rest, hrest⟩ := hasPrefix_iff.1 hpre
    have hrel : contentRoute.relative path = rest := by
      rw [hrest]
      exact trimPrefix_append "/workspace/" rest
    rw [hrel, and_iff_right hpre, not_not]
    exact climb_of_workspace h (by rw [hrest]; rfl)
  · have hrel : contentRoute.relative path = path := trimPrefix_of_not hpre
    refine ⟨fun hno => absurd hno.1 hpre, fun _ => ?_⟩
    rw [hrel]
    refine climb_of_root h (settled_relElements path) ?_
    rw [← resolve_relElements_self, habs]

theorem climb_of_longer {rest} (hpath : path = "/workspace" ++ rest) (hne : rest ≠ "")
    (hslash : ¬ hasPrefix rest "/") :
    ∃ k, relElements rest = List.replicate k ".." ++ "workspace" :: t := by
  obtain ⟨first, more, hsplit⟩ := List.exists_cons_of_ne_nil
    (show split '/' rest ≠ [] by simp [split])
  have hfirst : first ≠ "" := by
    rintro rfl
    exact (split_eq_empty_cons hsplit).elim hne hslash
  have hmore : ∀ n ∈ more, '/' ∉ n.toList := fun n hn =>
    not_mem_of_mem_split (hsplit ▸ List.mem_cons_of_mem first hn)
  have hname : Proper ("workspace" ++ first) ∧ "workspace" ++ first ≠ "workspace" := by
    simp only [Proper, ne_eq, ← String.toList_inj] at hfirst ⊢
    simpa using hfirst
  have helements : elements path = resolve true ["workspace" ++ first] (resolve false [] more) := by
    have hroot : path = "" ++ "/" ++ ("workspace" ++ rest) := by
      rw [hpath]
      rfl
    rw [elements, habs, hroot, split_append_slash, split_append_of_not_mem (by decide), hsplit,
      List.modifyHead_cons, ← resolve_relative _ _ hmore, resolve_append]
    exact congrArg (List.foldl (follow true) · more) (follow_proper true [] hname.1)
  obtain ⟨hdown, hup⟩ := climb_of_name h hname.1 (Settled.nil.resolve hmore) helements
  have hyes : ".." ∈ resolve false [] more := by
    by_contra hno
    exact hname.2 (hdown hno).1
  obtain ⟨k, hk⟩ := hup hyes
  have hdown' :=
    List.forall_mem_cons.2 ⟨proper_workspace, fun n hn => (proper_of_elements habs h n hn).1⟩
  have hrest : relElements rest =
      resolve false (follow false [] first) (List.replicate (k + 1) "..") ++ "workspace" :: t := by
    rw [← resolve_climb_append hdown', ← hk, ← resolve_relative _ _ hmore, relElements, hsplit]
    rfl
  -- the rest of the long name stays, climbs too or is climbed over
  by_cases hstay : first = "."
  · refine ⟨0 + (k + 1), ?_⟩
    rw [hrest, follow_stay _ _ (.inr hstay), ← resolve_climb 0]
    rfl
  by_cases hclimb : first = ".."
  · refine ⟨1 + (k + 1), ?_⟩
    rw [hrest, hclimb, ← resolve_climb 1]
    rfl
  · refine ⟨0 + k, ?_⟩
    have hproper : Proper first := ⟨hfirst, hstay, hclimb⟩
    have hup := follow_up_concat false [] hclimb
    rw [hrest, follow_proper _ _ hproper, List.replicate_succ, resolve, List.foldl_cons, hup,
      ← resolve, ← resolve_climb 0]
    rfl

theorem list_relative :
    ((path = "/workspace" ∨ hasPrefix path "/workspace/") ∧
        ".." ∉ relElements (listRoute.relative path) →
      relElements (listRoute.relative path) = t) ∧
    (¬ ((path = "/workspace" ∨ hasPrefix path "/workspace/") ∧
        ".." ∉ relElements (listRoute.relative path)) →
      ∃ k, relElements (listRoute.relative path) = List.replicate k ".." ++ "workspace" :: t) := by
  by_cases hpre : hasPrefix path "/workspace"
  · obtain ⟨rest, hrest⟩ := hasPrefix_iff.1 hpre
    have hrel : listRoute.relative path = trimPrefix rest "/" := by
      show trimPrefix (trimPrefix path "/workspace") "/" = _
      rw [hrest, trimPrefix_append]
    by_cases hempty : rest = ""
    · have hpath : path = "/workspace" := by rw [hrest, hempty, String.append_empty]
      have hnil : t = [] := by
        have hworkspace : elements "/workspace" = ["workspace"] := by decide
        rw [hpath, hworkspace, List.cons.injEq] at h
        exact h.2.symm
      have hno : relElements (listRoute.relative path) = [] := by
        rw [hrel, hempty]
        decide
      rw [hno, hnil]
      exact ⟨fun _ => rfl, fun hyes => absurd ⟨.inl hpath, List.not_mem_nil⟩ hyes⟩
    by_cases hslash : hasPrefix rest "/"
    · obtain ⟨below, hbelow⟩ := hasPrefix_iff.1 hslash
      have hpath : path = "/workspace" ++ "/" ++ below := by
        rw [hrest, hbelow, String.append_assoc]
      have hin : path = "/workspace" ∨ hasPrefix path "/workspace/" :=
        .inr (hasPrefix_iff.2 ⟨below, hpath⟩)
      rw [hrel, hbelow, trimPrefix_append, and_iff_right hin, not_not]
      exact climb_of_workspace h hpath
    · have hout : ¬ (path = "/workspace" ∨ hasPrefix path "/workspace/") := by
        rintro (hpath | hin)
        · rw [hrest] at hpath
          exact hempty (String.toList_inj.1 (by simpa using hpath))
        · obtain ⟨below, hbelow⟩ := hasPrefix_iff.1 hin
          refine hslash (hasPrefix_iff.2 ⟨below, ?_⟩)
          rw [hrest, ← String.toList_inj] at hbelow
          exact String.toList_inj.1 (by simpa using hbelow)
      rw [hrel, trimPrefix_of_not hslash]
      exact ⟨fun hyes => absurd hyes.1 hout, fun _ => climb_of_longer h habs hrest hempty hslash⟩
  · have hout : ¬ (path = "/workspace" ∨ hasPrefix path "/workspace/") := by
      rintro (hpath | hin)
      · exact hpre (by rw [hpath]; decide)
      · obtain ⟨below, hbelow⟩ := hasPrefix_iff.1 hin
        exact hpre (hasPrefix_iff.2 ⟨"/" ++ below, by rw [hbelow, ← String.append_assoc]; rfl⟩)
    obtain ⟨below, hbelow⟩ := hasPrefix_iff.1 habs
    have hrel : listRoute.relative path = below := by
      show trimPrefix (trimPrefix path "/workspace") "/" = _
      rw [trimPrefix_of_not hpre, hbelow, trimPrefix_append]
    refine ⟨fun hyes => absurd hyes.1 hout, fun _ => ?_⟩
    rw [hrel]
    refine climb_of_root h (settled_relElements below) ?_
    have hroot : path = "" ++ "/" ++ below := hbelow
    rw [elements, habs, hroot, split_append_slash, resolve_append, resolve_split]
    rfl

end Elements

/-! ## Paths on the host -/

section Host

variable {path rel : String} {t : List String} {h : HostPath}

theorem elements_workspaceRel (habs : isAbs path) (ht : elements path = "workspace" :: t) :
    isAbs (joinPath [h.path, workspaceRel path]) = isAbs h.path ∧
      elements (joinPath [h.path, workspaceRel path]) = elements h.path ++ t := by
  rw [workspaceRel_eq habs ht]
  exact ⟨isAbs_joinPath _ _ fun hempty => absurd hempty h.ne_empty,
    elements_joinPath_names h.ne_empty (proper_of_elements habs ht)⟩

theorem below_workspaceRel (habs : isAbs path) (ht : elements path = "workspace" :: t) :
    Below h.path (joinPath [h.path, workspaceRel path]) := by
  obtain ⟨hjoin, helements⟩ := elements_workspaceRel (h := h) habs ht
  have hup : ".." ∉ t := fun hmem => (proper_of_elements habs ht _ hmem).1.2.2 rfl
  exact (Go.below_iff_prefix hjoin (List.append_nil _).symm helements hup).2 List.nil_prefix

theorem joinPath_eq_iff (habs : isAbs path) (ht : elements path = "workspace" :: t) :
    joinPath [h.path, rel] = joinPath [h.path, workspaceRel path] ↔
      resolve (isAbs h.path) (elements h.path) (relElements rel) = elements h.path ++ t := by
  obtain ⟨hjoin, helements⟩ := elements_workspaceRel (h := h) habs ht
  have hrel : elements (joinPath [h.path, rel]) =
      resolve (isAbs h.path) (elements h.path) (relElements rel) := by
    rw [elements_joinPath_cons _ _ fun hempty => absurd hempty h.ne_empty, List.flatMap_singleton]
  have habs' : isAbs (joinPath [h.path, rel]) = isAbs h.path :=
    isAbs_joinPath _ _ fun hempty => absurd hempty h.ne_empty
  constructor
  · intro heq
    rw [← hrel, heq, helements]
  · intro heq
    rw [← clean_joinPath, ← clean_joinPath [h.path, workspaceRel path]]
    exact clean_congr (habs'.trans hjoin.symm) (hrel.trans (heq.trans helements.symm))

theorem joinPath_of_down (habs : isAbs path) (ht : elements path = "workspace" :: t)
    (hrel : relElements rel = t) :
    joinPath [h.path, rel] = joinPath [h.path, workspaceRel path] := by
  rw [joinPath_eq_iff habs ht, hrel]
  exact resolve_proper _ _ fun n hn => (proper_of_elements habs ht n hn).1

theorem joinPath_of_climb (habs : isAbs path) (ht : elements path = "workspace" :: t) {k}
    (hrel : relElements rel = List.replicate k ".." ++ "workspace" :: t) :
    joinPath [h.path, rel] = joinPath [h.path, workspaceRel path] ↔ LeadsBack h rel := by
  have hproper :=
    List.forall_mem_cons.2 ⟨proper_workspace, fun n hn => (proper_of_elements habs ht n hn).1⟩
  have hback : resolve (isAbs h.path) (elements h.path) (List.replicate k "..") ++
        "workspace" :: t = elements h.path ++ t ↔
      resolve (isAbs h.path) (elements h.path) (List.replicate k "..") ++ ["workspace"] =
        elements h.path := by
    rw [List.append_cons, List.append_cancel_right_eq]
  rw [joinPath_eq_iff habs ht, hrel, resolve_climb_append hproper, hback]
  constructor
  · exact fun heq => ⟨k, t, hrel, heq⟩
  · rintro ⟨n, u, hu, heq⟩
    rwa [climb_append_inj (by simp) (by simp) (hrel.symm.trans hu)]

end Host

/-! ## Requests -/

section Requests

variable {route : FileRoute} {lib : Lib} {workingDir : Option String} {h : HostPath}
  {path p diskPath : String}

theorem FileRoute.eq_of_diskPath? (hdisk : route.diskPath? workingDir h p = some diskPath) :
    diskPath = joinPath [h.path, route.relative p] := by
  simp only [diskPath?, Option.ite_none_right_eq_some] at hdisk
  exact (Option.some.inj hdisk.2).symm

theorem FileRoute.confines_iff (hp : route.pathOf path = some p) :
    Confines (route.serve lib) workingDir h path p ↔
      (hasPrefix (clean p) "/workspace" → InWorkspace p ∧
        (joinPath [h.path, route.relative p] = joinPath [h.path, workspaceRel p] ∨
          route.diskPath? workingDir h p = none)) := by
  constructor
  · intro hall hpre
    have hexec := hall (.ok 1) (.ok "pod") ""
    have hdisk := hall (.ok 0) (.ok "pod") ""
    simp [serve, hp, hpre, Except.toOption] at hexec
    simp [serve, hp, hpre] at hdisk
    refine ⟨hexec, ?_⟩
    cases hpath : route.diskPath? workingDir h p with
    | none => exact .inr rfl
    | some diskPath =>
      rw [hpath] at hdisk
      exact .inl ((eq_of_diskPath? hpath).symm.trans hdisk.2.1)
  · intro hcond replicas podName runID
    simp only [serve, hp]
    split_ifs with hpre hrun
    · exact True.intro
    · have hin := (hcond (by simpa using hpre)).1
      cases podName with
      | error err => exact True.intro
      | ok podName =>
        simp only
        split_ifs
        · exact True.intro
        · exact hin
    · obtain ⟨hin, hdisk⟩ := hcond (by simpa using hpre)
      cases hpath : route.diskPath? workingDir h p with
      | none => exact True.intro
      | some diskPath =>
        obtain ⟨habs, t, ht⟩ := inWorkspace_iff.1 hin
        have hjoin := (eq_of_diskPath? hpath).trans (hdisk.resolve_right (by simp [hpath]))
        exact ⟨hin, hjoin, hjoin ▸ below_workspaceRel habs ht⟩

end Requests

/-- A path of the workspace is confined exactly if it begins with `/workspace/` and the rest does
not climb out, or leads back to the volume, or the path on the host is rejected.  (For
`handleListFiles`, `/workspace` itself will do.) -/
theorem files_confined_iff (lib : Go.Lib) (workingDir : Option String) (h : HostPath) (path p : String) :
    (listRoute.pathOf path = some p →
      (Confines (handleListFiles lib) workingDir h path p ↔
        (Go.hasPrefix (Go.clean p) "/workspace" → InWorkspace p ∧
          ((p = "/workspace" ∨ Go.hasPrefix p "/workspace/") ∧
              ".." ∉ Go.relElements (listRoute.relative p) ∨
            LeadsBack h (listRoute.relative p) ∨ listRoute.diskPath? workingDir h p = none)))) ∧
    (contentRoute.pathOf path = some p →
      (Confines (handleFileContent lib) workingDir h path p ↔
        (Go.hasPrefix (Go.clean p) "/workspace" → InWorkspace p ∧
          (Go.hasPrefix p "/workspace/" ∧ ".." ∉ Go.relElements (contentRoute.relative p) ∨
            LeadsBack h (contentRoute.relative p) ∨
              contentRoute.diskPath? workingDir h p = none)))) := by
  have hpath : ∀ (rel : String) (direct rejected : Prop) (t : List String), Go.isAbs p →
      Go.elements p = "workspace" :: t → (direct → Go.relElements rel = t) →
      (¬ direct → ∃ k, Go.relElements rel = List.replicate k ".." ++ "workspace" :: t) →
      (Go.joinPath [h.path, rel] = Go.joinPath [h.path, workspaceRel p] ∨ rejected ↔
        direct ∨ LeadsBack h rel ∨ rejected) := by
    intro rel direct rejected t habs ht hdown hclimb
    by_cases hdirect : direct
    · exact iff_of_true (.inl (joinPath_of_down habs ht (hdown hdirect))) (.inl hdirect)
    · obtain ⟨k, hk⟩ := hclimb hdirect
      rw [joinPath_of_climb habs ht hk, or_iff_right hdirect]
  refine ⟨fun hp => (FileRoute.confines_iff hp).trans ?_, fun hp => (FileRoute.confines_iff hp).trans ?_⟩
  · refine imp_congr_right fun _ => and_congr_right fun hin => ?_
    obtain ⟨habs, t, ht⟩ := inWorkspace_iff.1 hin
    obtain ⟨hdown, hclimb⟩ := list_relative ht habs
    exact hpath _ _ _ t habs ht hdown hclimb
  · refine imp_congr_right fun _ => and_congr_right fun hin => ?_
    obtain ⟨habs, t, ht⟩ := inWorkspace_iff.1 hin
    obtain ⟨hdown, hclimb⟩ := content_relative ht habs
    exact hpath _ _ _ t habs ht hdown hclimb

def sampleVolume : HostPath := ⟨"/data/work", by decide⟩

def plainLib : Lib where
  toLowerRune := id
  urlPath := some
  quote := id

theorem files_confined_main :
    Confines (handleListFiles plainLib) none sampleVolume "/workspace/cmd//api/../bff"
        "/workspace/cmd//api/../bff" ∧
      Confines (handleFileContent plainLib) none sampleVolume "/workspace/cmd/main.go"
        "/workspace/cmd/main.go" := by
  have hlist := (files_confined_iff plainLib none sampleVolume "/workspace/cmd//api/../bff"
    "/workspace/cmd//api/../bff").1 (by decide)
  have hcontent := (files_confined_iff plainLib none sampleVolume "/workspace/cmd/main.go"
    "/workspace/cmd/main.go").2 (by decide)
  rw [hlist, hcontent]
  refine ⟨fun _ => ⟨?_, .inl ⟨.inr ?_, ?_⟩⟩, fun _ => ⟨?_, .inl ⟨?_, ?_⟩⟩⟩
  all_goals decide +kernel

/-- The pod is asked for a directory beside the workspace; a path with two slashes leads to another
file of the volume; and one that climbs out leads to a directory beside it. -/
theorem files_escape :
    handleListFiles plainLib ⟨.ok 1, .ok "run-7", .ok sampleVolume, none⟩ "ar-k3f9qz" "/workspace-old" =
      .exec "run-7" ["ls", "-la", "--time-style=long-iso", "/workspace-old"] ∧
    ¬ InWorkspace "/workspace-old" ∧
    handleFileContent plainLib ⟨.ok 0, .ok "", .ok sampleVolume, none⟩ "ar-k3f9qz" "//workspace/go.mod" =
      .disk "/data/work/workspace/go.mod" ∧
    Go.joinPath [sampleVolume.path, workspaceRel "//workspace/go.mod"] = "/data/work/go.mod" ∧
    handleFileContent plainLib ⟨.ok 0, .ok "", .ok sampleVolume, none⟩ "ar-k3f9qz"
      "/workspace/../workspace/key" = .disk "/data/workspace/key" ∧
    InWorkspace "/workspace/../workspace/key" ∧
    ¬ Go.Below sampleVolume.path "/data/workspace/key" := by
  all_goals decide +kernel

end Uncworks
