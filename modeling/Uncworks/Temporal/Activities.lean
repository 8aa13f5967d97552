import Uncworks.Durable.Worker
import Uncworks.Temporal.Workflow

/-!
# Activities that create something

`ProvisionLLMKey` and `CreateAgentDeployment`, and what an attempt at them can leave behind.  A
request to the LiteLLM proxy or to the Kubernetes API can take effect without its response arriving,
so the clients say both what a request did and what the activity hears of it.
-/

namespace Uncworks

open Durable

inductive Created where
  | key (key : String)
  | pvc (namespace_ name : String)
  | deployment (namespace_ name : String)
  deriving DecidableEq

/-! ## `ProvisionLLMKey` -/

structure GenerateKeyRequest where
  keyAlias : String
  maxBudget : ℚ
  models : List String
  metadata : List (String × String)

structure LiteLLMClient where
  masterKey : String
  modelIDs : Except String (List String)
  /-- The key that a request mints, if any, and what the caller hears. -/
  generateKey : GenerateKeyRequest → Option String × Except String String

def modelsForTier (tier : String) : List String :=
  if tier = "premium" then ["default", "default-cloud", "premium"] else ["default", "default-cloud"]

/-- `ProvisionLLMKey`: the key that was minted, and the key that is returned. -/
def Activities.provisionLLMKey (client : Option LiteLLMClient) (input : ProvisionLLMKeyInput) :
    Option String × String :=
  match client with
  | none => (none, "")
  | some client =>
    let tier := if input.modelTier = "" then "default" else input.modelTier
    let budget := if input.maxBudget ≤ 0 then 1 else input.maxBudget
    let models := match client.modelIDs with
      | .ok models => models
      | .error _ => modelsForTier tier
    let (minted, resp) := client.generateKey
      { keyAlias := s!"aot-{input.namespace_}-{input.agentRunName}", maxBudget := budget, models
        metadata := [("agent_run", input.agentRunName), ("namespace", input.namespace_),
          ("tier", tier)] }
    match resp with
    | .error _ => (minted, client.masterKey)
    | .ok key => (minted, key)

/-! ## `CreateAgentDeployment` -/

inductive CreateResponse where
  | ok
  | alreadyExists
  | failed (text : String)

/-- The Kubernetes API: whether a request creates the object, and what the caller hears. -/
abbrev K8sClient := Created → Bool × CreateResponse

/-- Create an object: what was created, and the error unless the object exists now. -/
def K8sClient.create (client : K8sClient) (obj : Created) : List Created × Option String :=
  let (created, resp) := client obj
  (if created then [obj] else [], match resp with
    | .failed text => some text
    | _ => none)

/-- `CreateAgentDeployment`: the objects that were created, and the name that is returned. -/
def Activities.createAgentDeployment (client : K8sClient) (input : CreateAgentDeploymentInput) :
    List Created × Except Failure String :=
  let pvcName := s!"aot-ws-{input.agentRunName}"
  let (pvc, err) := client.create (.pvc input.namespace_ pvcName)
  match err with
  | some text => (pvc, .error (.other s!"create PVC: {text}"))
  | none =>
    let (deployment, err) := client.create (.deployment input.namespace_ input.name)
    match err with
    | some text => (pvc ++ deployment, .error (.other s!"create deployment: {text}"))
    | none => (pvc ++ deployment, .ok input.name)

variable {client : K8sClient}

theorem K8sClient.eq_of_mem_create {obj obj'} (h : obj ∈ (client.create obj').1) : obj = obj' := by
  simp only [K8sClient.create] at h
  split_ifs at h
  · exact List.mem_singleton.1 h
  · cases h

theorem Activities.mem_createAgentDeployment {input obj} (h : obj ∈ (Activities.createAgentDeployment client input).1) :
    obj = .pvc input.namespace_ s!"aot-ws-{input.agentRunName}" ∨
      obj = .deployment input.namespace_ input.name := by
  have hmem : obj ∈ (client.create (.pvc input.namespace_ s!"aot-ws-{input.agentRunName}")).1 ∨
      obj ∈ (client.create (.deployment input.namespace_ input.name)).1 := by
    simp only [createAgentDeployment] at h
    split at h
    · exact .inl h
    · split at h <;> exact List.mem_append.1 h
  exact hmem.imp K8sClient.eq_of_mem_create K8sClient.eq_of_mem_create

theorem Activities.createAgentDeployment_ok {input name}
    (h : (Activities.createAgentDeployment client input).2 = .ok name) : name = input.name := by
  simp only [createAgentDeployment] at h
  split at h
  · cases h
  · split at h
    · cases h
    · cases h; rfl

/-! ## Attempts -/

/-- What an attempt may leave behind: it runs to its end, or it is cut off after some of what it
creates. -/
def CutOff {α : Type} (whole : List Created × Except Failure α) (created : List Created)
    (r : Option (Except Failure α)) : Prop :=
  (created = whole.1 ∧ r = some whole.2) ∨ (created <+: whole.1 ∧ r = none)

def Creates : (c : Command) → List Created → Option (Except Failure c.Reply) → Prop
  | .provisionLLMKey i, created, r => ∃ client,
    CutOff (((Activities.provisionLLMKey client i).1.toList.map .key),
      .ok (Activities.provisionLLMKey client i).2) created r
  | .createAgentDeployment i, created, r => ∃ client,
    CutOff (Activities.createAgentDeployment client i) created r
  | _, created, _ => created = []

variable {created : List Created}

theorem CutOff.subset {α : Type} {whole} {r : Option (Except Failure α)}
    (h : CutOff whole created r) : created ⊆ whole.1 := by
  rcases h with ⟨rfl, -⟩ | ⟨hpre, -⟩
  · exact List.Subset.refl _
  · exact hpre.subset

theorem Creates.cases {c r} (h : Creates c created r) {obj} (hobj : obj ∈ created) :
    (∃ key, obj = .key key) ∨ ∃ i, c = .createAgentDeployment i ∧
      (obj = .pvc i.namespace_ s!"aot-ws-{i.agentRunName}" ∨ obj = .deployment i.namespace_ i.name) := by
  unfold Creates at h
  split at h
  · obtain ⟨client, hcut⟩ := h
    obtain ⟨key, -, rfl⟩ := List.mem_map.1 (hcut.subset hobj)
    exact .inl ⟨key, rfl⟩
  · obtain ⟨client, hcut⟩ := h
    exact .inr ⟨_, rfl, Activities.mem_createAgentDeployment (hcut.subset hobj)⟩
  · subst h
    cases hobj

theorem Creates.deploymentName {i} {name : String}
    (h : Creates (.createAgentDeployment i) created (some (.ok name))) : name = i.name := by
  obtain ⟨client, ⟨-, hr⟩ | ⟨-, hr⟩⟩ := h
  · exact Activities.createAgentDeployment_ok (Option.some.inj hr).symm
  · cases hr

/-- The workers of the activities, which remember what was created. -/
abbrev provisioning : Worker temporal where
  Env := List Created
  Attempt c env env' r := ∃ created, env' = env ++ created ∧ Creates c created r
  Drift _ _ := False

end Uncworks
