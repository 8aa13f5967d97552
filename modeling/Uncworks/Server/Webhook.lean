import Mathlib.Algebra.Order.Ring.Nat
import Uncworks.Server.Autofix

/-!
# The GitHub webhook

`WebhookHandler.ServeHTTP`: a push creates an AgentRun for every spec file it touches, if its
repository is in the allowlist.  A check run goes to the CI autofix handler, which may create an
AgentRun when its timer expires, and which is called before the allowlist is looked at.
-/

namespace Uncworks

open Durable

structure CommitInfo where
  added : List String := []
  modified : List String := []

structure PushPayload where
  ref : String
  after : String
  fullName : String
  commits : List CommitInfo

structure WebhookLib where
  /-- `hex.DecodeString`. -/
  decodeHex : String → Option (List UInt8)
  /-- HMAC-SHA256 under a secret. -/
  hmac : String → List UInt8 → List UInt8
  /-- `strings.EqualFold`. -/
  equalFold : String → String → Bool
  /-- `json.Unmarshal` of a push payload and of a check run payload. -/
  decodePush : List UInt8 → Option PushPayload
  decodeCheckRun : List UInt8 → Except String CheckRunPayload
  /-- `strconv.Atoi`. -/
  atoi : String → Option ℤ

structure WebhookHandler where
  secret : String
  allowedRepos : List String
  namespace_ : String
  ciAutofix : Option CIAutofix

/-- `NewWebhookHandler`, with the environment variables `GITHUB_WEBHOOK_REPOS`,
`GITHUB_WEBHOOK_SECRET` and `CI_AUTOFIX_MAX_RETRIES`. -/
def newWebhookHandler (lib : WebhookLib) (namespace_ repos secret maxRetries : String) :
    WebhookHandler where
  secret := secret
  allowedRepos :=
    if repos = "" then [] else ((Go.split ',' repos).map Go.trimSpace).filter (· ≠ "")
  namespace_ := namespace_
  ciAutofix := some (newCIAutofix namespace_
    (match lib.atoi maxRetries with
    | some n => if 0 < n then n else 3
    | none => 3))

structure Delivery where
  method : String
  body : Option (List UInt8)
  signature : String
  eventType : String

inductive WebhookReply where
  | failure (status : ℕ) (text : String)
  | message (text : String)
  | autofix (triggered : Bool)
  | created (n : ℕ)
  deriving DecidableEq

/-- What a delivery leads to: its reply, the AgentRuns, and the failure that is handed to the timers
of the autofix handler, with the attempts so far. -/
structure Served where
  reply : WebhookReply
  created : List AgentRunCRD := []
  failure : Option (CheckRunPayload × ℕ) := none

/-- Whether the AgentRuns can be listed, the content of a file, if it can be fetched, and the name
of the AgentRun for a file, if it can be created. -/
structure WebhookCalls where
  listable : Bool
  fetchFileContent : String → Option String
  create : String → Option String

def validateSignature (lib : WebhookLib) (body : List UInt8) (signature secret : String) : Bool :=
  signature ≠ "" && Go.hasPrefix signature "sha256=" &&
    match lib.decodeHex (Go.trimPrefix signature "sha256=") with
    | some sig => sig = lib.hmac secret body
    | none => false

def collectSpecFiles (commits : List CommitInfo) : List String :=
  (commits.flatMap fun c => c.added ++ c.modified).foldl
    (fun result f =>
      if ".cs.md".toList.isSuffixOf f.toList ∧ f ∉ result then result ++ [f] else result) []

namespace WebhookHandler

variable (lib : WebhookLib) (h : WebhookHandler)

def isRepoAllowed (repo : String) : Bool :=
  h.allowedRepos.isEmpty || h.allowedRepos.any fun allowed => lib.equalFold allowed repo

def createAgentRun (name repo path branch content : String) : AgentRunCRD where
  name := name
  namespace_ := h.namespace_
  spec :=
    { specContent := content
      specSource := s!"webhook:github:{repo}/{path}"
      prompt := s!"Execute the CodeSpeak spec from {repo}/{path}"
      repos := [{ url := s!"https://github.com/{repo}.git", branch }] }

def pushRuns (calls : WebhookCalls) (payload : PushPayload) : List AgentRunCRD :=
  (collectSpecFiles payload.commits).filterMap fun path => do
    let content ← calls.fetchFileContent path
    let name ← calls.create path
    return h.createAgentRun name payload.fullName path (Go.trimPrefix payload.ref "refs/heads/") content

def authenticate (d : Delivery) : Except WebhookReply (List UInt8) :=
  if d.method ≠ "POST" then .error (.failure 405 "method not allowed")
  else match d.body with
    | none => .error (.failure 400 "failed to read body")
    | some raw =>
      let body := raw.take (10 * 2 ^ 20)
      if h.secret = "" then .error (.failure 401 "webhook secret not configured")
      else if !validateSignature lib body d.signature h.secret then
        .error (.failure 401 "invalid signature")
      else .ok body

/-- `HandleCheckRunEvent`, up to the timer: the failure that is to be fixed. -/
def handleCheckRunEvent (ci : CIAutofix) (listed : Option (List AgentRunCRD)) (body : List UInt8) :
    Except String (Option (CheckRunPayload × ℕ)) :=
  match lib.decodeCheckRun body with
  | .error text => .error s!"unmarshal check_run: {text}"
  | .ok payload => .ok ((ci.countAttempts listed payload).map fun attempts => (payload, attempts))

def handle (runs : List AgentRunCRD) (calls : WebhookCalls) (eventType : String)
    (body : List UInt8) : Served :=
  match if eventType = "check_run" then h.ciAutofix else none with
  | some ci =>
    let listed := if calls.listable then some runs else none
    let failure := (handleCheckRunEvent lib ci listed body).toOption.join
    { reply := .autofix failure.isSome, failure }
  | none =>
    if eventType ≠ "push" then { reply := .message "ignored event type" }
    else match lib.decodePush body with
      | none => { reply := .failure 400 "invalid payload" }
      | some payload =>
        if !h.isRepoAllowed lib payload.fullName then { reply := .message "repo not in allowlist" }
        else
          let created := h.pushRuns calls payload
          { reply := .created created.length, created }

def serveHTTP (runs : List AgentRunCRD) (calls : WebhookCalls) (d : Delivery) : Served :=
  match h.authenticate lib d with
  | .error reply => { reply }
  | .ok body => h.handle lib runs calls d.eventType body

def repository (eventType : String) (body : List UInt8) : Option String :=
  if eventType = "check_run" then (lib.decodeCheckRun body).toOption.map (·.fullName)
  else (lib.decodePush body).map (·.fullName)

end WebhookHandler

/-! ## What becomes of a failure -/

section Later

variable (ci : CIAutofix) (env : Env) (liteLLMBaseURL gitHubTokenSecretName : String)

def AutofixLater : AutofixState → AutofixState → Prop :=
  Relation.ReflTransGen fun s s' =>
    ∃ a, AutofixStep ci env liteLLMBaseURL gitHubTokenSecretName s a s'

def AutofixState.newFix (s : AutofixState) (payload : CheckRunPayload) (attempts : ℕ) : Fix :=
  ⟨s.nextID, payload.fullName, payload.headBranch, payload.headSHA, attempts, .counted⟩

section

variable (s : AutofixState) (f : Fix)

def AutofixState.detected : AutofixState :=
  { s with fixes := s.fixes ++ [f], nextID := s.nextID + 1 }

theorem mem_detected : f ∈ (s.detected f).fixes :=
  List.mem_append_right _ (List.mem_singleton_self f)

def CreatedLater : Prop :=
  ∃ s₁ s₂ phase name ciLogs, AutofixLater ci env liteLLMBaseURL gitHubTokenSecretName s s₁ ∧
    AutofixStep ci env liteLLMBaseURL gitHubTokenSecretName s₁ (.create { f with phase } name ciLogs) s₂

end

variable {ci env liteLLMBaseURL gitHubTokenSecretName} {s : AutofixState} {f : Fix}

theorem createFixRun_isOk {repo branch sha ciLogs name attempt} :
    (∃ run, ci.createFixRun repo branch sha attempt ciLogs name = .ok run) ↔ '/' ∈ repo.toList := by
  unfold CIAutofix.createFixRun
  split
  · rename_i owner rest hsplit
    rw [Go.splitN_two hsplit]
    simp
  · rename_i hsplit
    refine ⟨?_, fun hmem => ?_⟩
    · rintro ⟨run, hrun⟩
      cases hrun
    obtain ⟨a, b, hab⟩ := Go.splitN_of_mem hmem
    exact absurd hab (hsplit a b)

/-- A failure of a repository with a name in two parts may lead to an AgentRun, whatever else is on
its way. -/
theorem createdLater_iff (hf : f ∈ s.fixes) (hp : f.phase = .counted) :
    CreatedLater ci env liteLLMBaseURL gitHubTokenSecretName s f ↔ '/' ∈ f.repo.toList := by
  refine ⟨?_, fun hrepo => ?_⟩
  · rintro ⟨s₁, s₂, phase, name, ciLogs, -, hstep⟩
    cases hstep with
    | create f name ciLogs hf hp hcreate => exact createFixRun_isOk.1 ⟨_, hcreate⟩
  · have hmem : ∀ (fixes : List Fix) (phase phase' : FixPhase),
        ({ f with phase } : Fix) ∈ AutofixState.move fixes { f with phase := phase' } phase :=
      fun fixes phase phase' => List.mem_append_right _ (List.mem_singleton_self _)
    have hf' : ({ f with phase := .counted } : Fix) ∈ s.fixes := by
      rw [← hp]
      exact hf
    obtain ⟨run, hrun⟩ : ∃ run,
        ci.createFixRun f.repo f.branch f.sha (f.attempts + 1) "" "" = .ok run :=
      createFixRun_isOk.2 hrepo
    -- arm, fire, unlock
    refine ⟨_, _, .creating, "", "", ((Relation.ReflTransGen.single
      ⟨_, .arm { f with phase := .counted } hf' rfl⟩).tail
      ⟨_, .fire { f with phase := .armed } (hmem _ _ _) rfl⟩).tail
      ⟨_, .unlock { f with phase := .firing } (hmem _ _ _) rfl⟩,
      .create { f with phase := .creating } "" "" (hmem _ _ _) rfl hrun⟩

end Later

/-! ## Which deliveries create AgentRuns -/

namespace WebhookHandler

variable (lib : WebhookLib) (h : WebhookHandler) (env : Env)
  (liteLLMBaseURL gitHubTokenSecretName : String) (s : AutofixState) (calls : WebhookCalls)

def CreatesRun (d : Delivery) : Prop :=
  (h.serveHTTP lib s.runs calls d).created ≠ [] ∨
    ∃ ci payload attempts, h.ciAutofix = some ci ∧
      (h.serveHTTP lib s.runs calls d).failure = some (payload, attempts) ∧
      CreatedLater ci env liteLLMBaseURL gitHubTokenSecretName
        (s.detected (s.newFix payload attempts)) (s.newFix payload attempts)

/-- A check run that the autofix handler wants to fix: a completed failure on a branch of ours, with
attempts left as far as the runs can be listed, in a repository whose name has two parts. -/
def Fixable (eventType : String) (body : List UInt8) : Prop :=
  eventType = "check_run" ∧ ∃ ci payload, h.ciAutofix = some ci ∧
    lib.decodeCheckRun body = .ok payload ∧ payload.action = "completed" ∧
    payload.conclusion = "failure" ∧ Go.hasPrefix payload.headBranch "aot/" = true ∧
    (if calls.listable then getFixAttemptCount s.runs payload.headBranch else 0) < ci.maxRetries ∧
    '/' ∈ payload.fullName.toList

variable {lib h env liteLLMBaseURL gitHubTokenSecretName s calls}

theorem countAttempts_isSome {ci : CIAutofix} {payload} :
    (∃ attempts, ci.countAttempts (if calls.listable then some s.runs else none) payload =
      some attempts) ↔
    payload.action = "completed" ∧ payload.conclusion = "failure" ∧
      Go.hasPrefix payload.headBranch "aot/" = true ∧
      (if calls.listable then getFixAttemptCount s.runs payload.headBranch else 0) < ci.maxRetries := by
  unfold CIAutofix.countAttempts
  by_cases haction : payload.action = "completed"
  · by_cases hconclusion : payload.conclusion = "failure"
    · by_cases hbranch : Go.hasPrefix payload.headBranch "aot/"
      · cases hlist : calls.listable with
        | true | false => simp [haction, hbranch]
      · simp [haction, hbranch]
    · simp [hconclusion]
  · simp [haction]

theorem handle_checkRun (lib : WebhookLib) (h : WebhookHandler) (runs : List AgentRunCRD)
    (calls : WebhookCalls) (body : List UInt8) {ci} (hci : h.ciAutofix = some ci) :
    (h.handle lib runs calls "check_run" body).created = [] ∧
      (h.handle lib runs calls "check_run" body).failure = (handleCheckRunEvent lib ci
        (if calls.listable then some runs else none) body).toOption.join := by
  unfold handle
  rw [hci]
  exact ⟨rfl, rfl⟩

theorem handle_forbidden (h : WebhookHandler) (runs : List AgentRunCRD) (calls : WebhookCalls)
    {eventType} (body : List UInt8)
    (hnot : (if eventType = "check_run" then h.ciAutofix else none) = none)
    (hrepo : ∀ payload, lib.decodePush body = some payload → eventType = "push" →
      h.isRepoAllowed lib payload.fullName = false) :
    (h.handle lib runs calls eventType body).created = [] ∧
      (h.handle lib runs calls eventType body).failure = none := by
  unfold handle
  rw [hnot]
  by_cases hpush : eventType = "push"
  · cases hdecode : lib.decodePush body with
    | none => simp [hpush]
    | some payload => simp [hpush, hrepo payload hdecode hpush]
  · simp [hpush]

theorem handleCheckRunEvent_eq_some {ci listed body payload attempts} :
    (handleCheckRunEvent lib ci listed body).toOption.join = some (payload, attempts) ↔
      lib.decodeCheckRun body = .ok payload ∧ ci.countAttempts listed payload = some attempts := by
  unfold handleCheckRunEvent
  cases lib.decodeCheckRun body with
  | error text => exact ⟨nofun, fun hdecode => nomatch hdecode.1⟩
  | ok decoded =>
    show (ci.countAttempts listed decoded).map _ = _ ↔ _
    simp only [Option.map_eq_some_iff, Prod.mk.injEq, Except.ok.injEq]
    refine ⟨?_, ?_⟩
    · rintro ⟨n, hn, rfl, rfl⟩
      exact ⟨rfl, hn⟩
    · rintro ⟨rfl, hn⟩
      exact ⟨attempts, hn, rfl, rfl⟩

/-- A signed delivery from a repository that is not in the allowlist creates no AgentRun, now or
later, exactly if it is not a check run that the autofix handler wants to fix. -/
theorem no_run_iff {d : Delivery} {body : List UInt8} (hd : h.authenticate lib d = .ok body)
    (hrepo : ∀ repo ∈ repository lib d.eventType body, h.isRepoAllowed lib repo = false) :
    ¬ h.CreatesRun lib env liteLLMBaseURL gitHubTokenSecretName s calls d ↔
      ¬ h.Fixable lib s calls d.eventType body := by
  apply not_congr
  have hserved : h.serveHTTP lib s.runs calls d = h.handle lib s.runs calls d.eventType body := by
    unfold serveHTTP
    rw [hd]
  unfold CreatesRun
  rw [hserved]
  cases hcase : if d.eventType = "check_run" then h.ciAutofix else none with
  | none =>
    obtain ⟨hcreated, hfailure⟩ := h.handle_forbidden s.runs calls body hcase
      fun payload hdecode hpush => hrepo payload.fullName (by simp [repository, hpush, hdecode])
    rw [hcreated, hfailure]
    refine ⟨by simp, ?_⟩
    rintro ⟨htype, ci, payload, hci, -⟩
    rw [if_pos htype, hci] at hcase
    cases hcase
  | some ci =>
    obtain ⟨htype, hci⟩ : d.eventType = "check_run" ∧ h.ciAutofix = some ci := by
      split_ifs at hcase with htype
      exact ⟨htype, hcase⟩
    obtain ⟨hcreated, hfailure⟩ := handle_checkRun lib h s.runs calls body hci
    rw [htype, hcreated, hfailure]
    refine ⟨?_, ?_⟩
    · rintro (hnow | ⟨ci', payload, attempts, hci', hfix, hlater⟩)
      · exact absurd rfl hnow
      · obtain ⟨hdecode, hcount⟩ := handleCheckRunEvent_eq_some.1 hfix
        obtain ⟨haction, hconclusion, hbranch, hlt⟩ := countAttempts_isSome.1 ⟨attempts, hcount⟩
        exact ⟨rfl, ci, payload, hci, hdecode, haction, hconclusion, hbranch, hlt,
          (createdLater_iff (mem_detected _ _) rfl).1 hlater⟩
    · rintro ⟨-, ci', payload, hci', hdecode, haction, hconclusion, hbranch, hlt, hslash⟩
      obtain rfl := Option.some.inj (hci.symm.trans hci')
      obtain ⟨attempts, hcount⟩ := countAttempts_isSome.2 ⟨haction, hconclusion, hbranch, hlt⟩
      exact .inr ⟨ci, payload, attempts, hci, handleCheckRunEvent_eq_some.2 ⟨hdecode, hcount⟩,
        (createdLater_iff (mem_detected _ _) rfl).2 hslash⟩

/-- Every body is a failed check or a push of one spec file in `owner/repo`, and every signature is
valid. -/
def sampleWebhookLib : WebhookLib where
  decodeHex _ := some [1]
  hmac _ _ := [1]
  equalFold a b := a = b
  decodePush _ := some ⟨"refs/heads/main", "0123456789", "owner/repo", [{ added := ["a.cs.md"] }]⟩
  decodeCheckRun _ := .ok (failureOn "aot/ar-0")
  atoi _ := none

def sampleHandler : WebhookHandler :=
  newWebhookHandler sampleWebhookLib "default" "acme/site" "secret" ""

def signedDelivery (eventType : String) : Delivery := ⟨"POST", some [], "sha256=01", eventType⟩

def sampleWebhookCalls : WebhookCalls := ⟨true, fun _ => some "", fun _ => some "ar-1"⟩

theorem no_run_iff_push :
    sampleHandler.authenticate sampleWebhookLib (signedDelivery "push") = .ok [] ∧
      ¬ sampleHandler.CreatesRun sampleWebhookLib sampleEnv "" "" { runs := [] } sampleWebhookCalls
        (signedDelivery "push") := by
  refine ⟨rfl, (no_run_iff rfl ?_).2 ?_⟩
  · decide
  · rintro ⟨htype, -⟩
    exact absurd htype (by decide)

/-- A failed check in a repository that is not in the allowlist leads to an AgentRun. -/
theorem forbidden_check_run :
    sampleHandler.authenticate sampleWebhookLib (signedDelivery "check_run") = .ok [] ∧
      repository sampleWebhookLib "check_run" [] = some "owner/repo" ∧
      sampleHandler.isRepoAllowed sampleWebhookLib "owner/repo" = false ∧
      sampleHandler.CreatesRun sampleWebhookLib sampleEnv "" "" { runs := [] } sampleWebhookCalls
        (signedDelivery "check_run") := by
  refine ⟨rfl, rfl, by decide, .inr ⟨_, failureOn "aot/ar-0", 0, rfl, rfl, ?_⟩⟩
  exact (createdLater_iff (mem_detected _ _) rfl).2 (by decide)

end WebhookHandler

end Uncworks
