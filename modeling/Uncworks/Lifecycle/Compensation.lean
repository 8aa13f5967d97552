import Uncworks.Lifecycle.Approval
import Uncworks.Lifecycle.Footprint
import Uncworks.Temporal.Activities

/-!
# What the deferred cleanup gives back

The cleanup of a single-agent run revokes the key and retires the deployment whose names the run has
heard of.  Activities are executed at least once, so attempts can create more than that: what the
cleanup misses is exactly what was created without the run hearing of it (`cleanup_iff`).
-/

namespace Uncworks

open Durable Flow List

variable {env : Env} {input : WorkflowInput}

/-! ## Receipts -/

inductive Receipt where
  | key (key : String)
  | asked (input : CreateAgentDeploymentInput)
  | deployment (name : String)
  | revoked (key : String)
  | scaled (name namespace_ : String)
  | archived (name pvc namespace_ : String)

def receipt? : Entry temporal Vars → Option Receipt
  | .completed (.provisionLLMKey _) (.ok key) => some (.key key)
  | .scheduled (.createAgentDeployment i) _ => some (.asked i)
  | .completed (.createAgentDeployment _) (.ok name) => some (.deployment name)
  | .scheduled (.revokeLLMKey key) _ => some (.revoked key)
  | .scheduled (.scaleDownDeployment name ns) _ => some (.scaled name ns)
  | .scheduled (.archiveAndCleanup name pvc ns) _ => some (.archived name pvc ns)
  | _ => none

def Receipt.In (log : History) : Receipt → Prop
  | .key k => ∃ i, .completed (.provisionLLMKey i) (.ok k) ∈ log
  | .asked i => ∃ v, .scheduled (.createAgentDeployment i) v ∈ log
  | .deployment name => ∃ i, .completed (.createAgentDeployment i) (.ok name) ∈ log
  | .revoked k => ∃ v, .scheduled (.revokeLLMKey k) v ∈ log
  | .scaled name ns => ∃ v, .scheduled (.scaleDownDeployment name ns) v ∈ log
  | .archived name pvc ns => ∃ v, .scheduled (.archiveAndCleanup name pvc ns) v ∈ log

theorem mem_receipts {log} {r : Receipt} : r ∈ log.filterMap receipt? ↔ r.In log := by
  rw [mem_filterMap]
  constructor
  · rintro ⟨e, he, hr⟩
    unfold receipt? at hr
    split at hr <;> cases hr <;> exact ⟨_, he⟩
  · cases r <;> rintro ⟨_, he⟩ <;> exact ⟨_, he, rfl⟩

abbrev receipts : Monitor temporal Vars := .record receipt?

def Command.isReceipted : Command → Bool
  | .provisionLLMKey _ => true
  | .createAgentDeployment _ => true
  | .revokeLLMKey _ => true
  | .scaleDownDeployment _ _ => true
  | .archiveAndCleanup _ _ _ => true
  | _ => false

/-- Code that leaves no receipt and does not touch the variables the cleanup reads. -/
def unreceipted (key name : String) : Footprint where
  commands c := c.isReceipted = false
  keeps v := v.llmKey = key ∧ v.deploymentName = name
  plain c hc := by cases c <;> first | rfl | cases hc
  state _ _ hv := hv
  podIP _ _ hv := hv

theorem receipt?_of_allows {key name e} (he : (unreceipted key name).Allows e) :
    receipt? e = none := by
  unfold receipt?
  split <;> first | rfl | cases he

/-! ## The body -/

structure NamedAfter (input : WorkflowInput) (i : CreateAgentDeploymentInput) : Prop where
  name : i.name = s!"agentrun-{input.agentRunName}"
  namespace_ : i.namespace_ = input.namespace_
  agentRunName : i.agentRunName = input.agentRunName

structure Received (input : WorkflowInput) (v : Vars) (m : List Receipt) : Prop where
  key : ∀ key, key ≠ "" → (.key key ∈ m ↔ key = v.llmKey)
  deployment : ∀ name, name ≠ "" → (.deployment name ∈ m ↔ name = v.deploymentName)
  asked : ∀ i, .asked i ∈ m → NamedAfter input i
  revoked : ∀ key, .revoked key ∉ m
  scaled : ∀ name ns, .scaled name ns ∉ m
  archived : ∀ name pvc ns, .archived name pvc ns ∉ m

section Body

variable {v : Vars} {m : List Receipt} {context : String}

theorem required_receipts {α : Type} {cancelMessage failMessage r}
    {Q : α → Vars → List Receipt → Prop} {E : Option WorkflowError → Vars → List Receipt → Prop}
    (hQ : ∀ a, r = .ok a → Q a v m) (hE : ∀ e, r = .error e → ∀ err state, E err { v with state } m) :
    (required context cancelMessage failMessage r).wp receipts Q E v m := by
  rcases r with (_ | text) | a
  · simp only [required, setPhase, wp_bind, wp_update, wp_exit]
    exact hE _ rfl _ _
  · simp only [required, setPhase, wp_bind, wp_update, wp_exit]
    exact hE _ rfl _ _
  · exact (wp_pure a).2 (hQ a rfl)

theorem provisionLLMKey_receipts (hkey : v.llmKey = "") (hname : v.deploymentName = "") :
    (provisionLLMKey context input).wp receipts
      (fun _ v m => v.deploymentName = "" ∧ m = [.key v.llmKey])
      (fun _ v m => Received input v m) v [] := by
  have hnone : ∀ state, Received input { v with state } [] := fun state =>
    ⟨by simp [hkey], by simp [hname], (by simp), (by simp), (by simp), (by simp)⟩
  simp only [provisionLLMKey, wp_bind]
  refine wp_exec.2 ⟨⟨trivial, required_receipts (by simp) fun _ _ _ => hnone⟩, trivial, fun r =>
    ⟨trivial, ?_⟩⟩
  rcases r with err | key
  · exact required_receipts (by simp) fun _ _ _ => hnone
  · refine required_receipts (fun a ha => ?_) (by simp)
    cases ha
    exact (wp_update _).2 ⟨hname, rfl⟩

theorem createAgentDeployment_receipts (hname : v.deploymentName = "") (hm : m = [.key v.llmKey]) :
    (createAgentDeployment context input).wp receipts (fun _ v m => Received input v m)
      (fun _ v m => Received input v m) v m := by
  subst hm
  simp only [createAgentDeployment, setMessage, wp_bind, wp_update, wp_read]
  refine wp_exec.2 ⟨⟨trivial, required_receipts (by simp) fun _ _ _ state => ?_⟩, trivial, fun r =>
    ⟨trivial, ?_⟩⟩
  · refine ⟨by simp [receipt?], by simp [receipt?, hname], by simp [receipt?], ?_, ?_, ?_⟩ <;>
      simp [receipt?]
  · rcases r with err | name
    · refine required_receipts (by simp) fun _ _ _ state => ?_
      refine ⟨by simp [receipt?], by simp [receipt?, hname], ?_, ?_, ?_, ?_⟩ <;> simp [receipt?]
      exact ⟨rfl, rfl, rfl⟩
    · refine required_receipts (fun a ha => ?_) (by simp)
      cases ha
      refine ⟨?_, ?_, ?_, ?_, ?_, ?_⟩ <;> simp [receipt?]
      exact ⟨rfl, rfl, rfl⟩

theorem received_of_covers {α : Type} {p} {Q : α → Vars → List Receipt → Prop}
    (hp : ∀ key name, (unreceipted key name).Covers p fun _ => True) (h : Received input v m)
    (hQ : ∀ a v m, Received input v m → Q a v m) :
    p.wp receipts Q (fun _ v m => Received input v m) v m := by
  have hend : ∀ v' : Vars, v'.llmKey = v.llmKey ∧ v'.deploymentName = v.deploymentName →
      Received input v' m := by
    rintro v' ⟨hkey, hname⟩
    exact { h with key := hkey ▸ h.key, deployment := hname ▸ h.deployment }
  refine wp_mono (wp_of_within (J := fun m' => m' = m) (hp v.llmKey v.deploymentName) ?_
    (fun _ _ _ _ => trivial) ⟨rfl, rfl⟩ rfl) ?_ ?_
  · rintro _ e rfl he
    simp [receipt?_of_allows he]
  · rintro a v' _ ⟨-, hv', rfl⟩
    exact hQ a v' _ (hend v' hv')
  · rintro _ v' _ ⟨-, hv', rfl⟩
    exact hend v' hv'

theorem singleAgentBody_receipts (hkey : v.llmKey = "") (hname : v.deploymentName = "") :
    (singleAgentBody env input).wp receipts (fun _ v m => Received input v m)
      (fun _ v m => Received input v m) v [] := by
  simp only [singleAgentBody, prepareSingleAgent, setPhase, wp_bind, wp_update]
  refine wp_mono (provisionLLMKey_receipts hkey hname) ?_ fun _ _ _ h => h
  rintro _ v m ⟨hname, hm⟩
  refine wp_mono (createAgentDeployment_receipts hname hm) (fun _ v m h => ?_) fun _ _ _ h => h
  -- Nothing after the deployment leaves a receipt.
  refine received_of_covers (fun _ _ => (Footprint.walk _).checkEviction) h fun _ v m h => ?_
  refine received_of_covers (fun _ _ => (Footprint.walk _).waitForHydration)
    { h with key := h.key, deployment := h.deployment } fun _ v m h => ?_
  rw [wp_read]
  refine received_of_covers (fun _ _ => (Footprint.walk _).execute rfl) h fun _ v m h => ?_
  rw [wp_pure]
  refine received_of_covers (fun _ _ => (Footprint.walk _).startSingleAgent) h fun _ v m h => ?_
  refine received_of_covers (fun _ _ => (Footprint.walk _).startPolling) h fun _ v m h => ?_
  exact received_of_covers (fun _ _ => (Footprint.walk _).pollRounds (fun _ => rfl) fun _ => rfl) h
    fun _ _ _ h => h

end Body

/-! ## The cleanup -/

/-- The receipts of a run that has returned: what it has heard of was given back. -/
structure GivenBack (input : WorkflowInput) (m : List Receipt) : Prop where
  revoked : ∀ key, .revoked key ∈ m ↔ key ≠ "" ∧ .key key ∈ m
  scaled : ∀ name ns, .scaled name ns ∈ m ↔
    ns = input.namespace_ ∧ name ≠ "" ∧ .deployment name ∈ m
  archived : ∀ name pvc ns, .archived name pvc ns ∈ m ↔
    (pvc = s!"aot-ws-{input.agentRunName}" ∧ ns = input.namespace_) ∧ name ≠ "" ∧
      .deployment name ∈ m
  asked : ∀ i, .asked i ∈ m → NamedAfter input i

section Cleanup

variable {v : Vars} {m : List Receipt} {E : Option WorkflowError → Vars → List Receipt → Prop}

theorem cleanUp_receipts {c : Command} {Q : Unit → Vars → List Receipt → Prop}
    (hQ : ∀ r, Q () v
      (m ++ (receipt? (.scheduled c v)).toList ++ (receipt? (.completed c r)).toList)) :
    (cleanUp c).wp receipts Q E v m := by
  simp only [cleanUp, wp_bind]
  exact wp_execDetached.2 ⟨trivial, fun r => ⟨trivial, (wp_pure _).2 (hQ r)⟩⟩

def cleanupReceipts (input : WorkflowInput) (v : Vars) : List Receipt :=
  (if v.llmKey ≠ "" then [.revoked v.llmKey] else []) ++
    if v.deploymentName ≠ "" then [.scaled v.deploymentName input.namespace_,
      .archived v.deploymentName s!"aot-ws-{input.agentRunName}" input.namespace_]
    else []

theorem revokeLLMKey_receipts :
    revokeLLMKey.wp receipts (fun _ v' m' => v' = v ∧
      m' = m ++ if v.llmKey ≠ "" then [.revoked v.llmKey] else []) E v m := by
  simp only [revokeLLMKey, wp_bind, wp_read]
  refine wp_when (fun hkey => cleanUp_receipts fun r => ?_) fun hkey => ?_
  · simp [receipt?, hkey]
  · simp [hkey]

theorem retireDeployment_receipts {retention} :
    (retireDeployment input retention).wp receipts (fun _ v' m' => v' = v ∧
      m' = m ++ if v.deploymentName ≠ "" then [.scaled v.deploymentName input.namespace_,
        .archived v.deploymentName s!"aot-ws-{input.agentRunName}" input.namespace_]
      else []) E v m := by
  simp only [retireDeployment, wp_bind, wp_read]
  refine wp_when (fun hname => ?_) fun hname => by simp [hname]
  simp only [wp_bind]
  refine cleanUp_receipts fun _ => cleanUp_receipts fun _ => cleanUp_receipts fun _ =>
    cleanUp_receipts fun _ => ?_
  simp [receipt?, hname]

theorem singleAgentCleanup_receipts :
    (singleAgentCleanup input).wp receipts (fun _ _ m' => m' = m ++ cleanupReceipts input v)
      E v m := by
  have hgive : (do revokeLLMKey; retireDeployment input (2 * 3600)).wp receipts
      (fun _ _ m' => m' = m ++ cleanupReceipts input v) E v m := by
    rw [wp_bind]
    refine wp_mono revokeLLMKey_receipts ?_ fun _ _ _ h => h
    rintro _ v m ⟨rfl, rfl⟩
    refine wp_mono retireDeployment_receipts ?_ fun _ _ _ h => h
    simp [cleanupReceipts]
  simp only [singleAgentCleanup, wp_bind, wp_read] at hgive ⊢
  refine wp_when (fun _ => ?_) fun _ => hgive
  rw [wp_bind]
  refine cleanUp_receipts fun _ => cleanUp_receipts fun _ => ?_
  simpa [receipt?] using hgive

theorem mem_cleanupReceipts {r} : r ∈ cleanupReceipts input v ↔
    (v.llmKey ≠ "" ∧ r = .revoked v.llmKey) ∨ v.deploymentName ≠ "" ∧
      (r = .scaled v.deploymentName input.namespace_ ∨
        r = .archived v.deploymentName s!"aot-ws-{input.agentRunName}" input.namespace_) := by
  unfold cleanupReceipts
  split_ifs <;> simp_all

theorem Received.givenBack (h : Received input v m) :
    GivenBack input (m ++ cleanupReceipts input v) := by
  have hkey : ∀ key, key ≠ "" ∧ .key key ∈ m ↔ v.llmKey ≠ "" ∧ key = v.llmKey := fun key =>
    ⟨fun ⟨hne, hm⟩ => ((h.key key hne).1 hm) ▸ ⟨hne, rfl⟩, fun ⟨hne, heq⟩ => by
      subst heq; exact ⟨hne, (h.key _ hne).2 rfl⟩⟩
  have hname : ∀ name, name ≠ "" ∧ .deployment name ∈ m ↔
      v.deploymentName ≠ "" ∧ name = v.deploymentName := fun name =>
    ⟨fun ⟨hne, hm⟩ => ((h.deployment name hne).1 hm) ▸ ⟨hne, rfl⟩, fun ⟨hne, heq⟩ => by
      subst heq; exact ⟨hne, (h.deployment _ hne).2 rfl⟩⟩
  constructor
  · simp [mem_cleanupReceipts, h.revoked, hkey]
  · simp [mem_cleanupReceipts, h.scaled, hname]
    tauto
  · simp [mem_cleanupReceipts, h.archived, hname]
    tauto
  · intro i
    simpa [mem_cleanupReceipts] using h.asked i

theorem runSingleAgent_receipts :
    (runSingleAgent env input).wp receipts (fun _ _ m => GivenBack input m) E v [] := by
  have hcleanup : ∀ (err : Option WorkflowError) v m, Received input v m → (do
      mark (I := temporal) .bodyReturned
      singleAgentCleanup input
      return err : Workflow _).wp receipts (fun _ _ m => GivenBack input m) E v m := by
    intro err v m h
    simp only [wp_bind, wp_mark]
    refine ⟨trivial, wp_mono singleAgentCleanup_receipts ?_ fun _ _ _ hE => hE⟩
    rintro _ _ _ rfl
    simpa [receipt?] using h.givenBack
  simp only [runSingleAgent, withDeferred, wp_bind, wp_update, wp_call] at hcleanup ⊢
  exact wp_mono (singleAgentBody_receipts rfl rfl) hcleanup hcleanup

end Cleanup

/-! ## Runs -/

section Runs

variable {P : Pipeline} {c : Run} {err : Option WorkflowError}

theorem agentRunWorkflow_receipts {E : Option WorkflowError → Vars → List Receipt → Prop} {v}
    (hP : pipeline? env input = some P) (hs : P.specDriven = false) :
    (agentRunWorkflow env input).wp receipts (fun _ _ m => GivenBack P.input m) E v [] := by
  unfold agentRunWorkflow
  dsimp only
  unfold pipeline? at hP
  rcases hm : (preamble input).orchestrationMode <;> simp [hm] at hP <;> cases hP
  · exact runSingleAgent_receipts
  · exact runSingleAgent_receipts
  · simp only [runAutoOrchestration, wp_bind, wp_update]
    exact runSingleAgent_receipts
  · cases hs

theorem Run.givenBack (hP : pipeline? env input = some P) (hs : P.specDriven = false)
    (h : (Run.start env input).Reaches c) (hret : c.returned? = some err) :
    GivenBack P.input (c.world.log.filterMap receipt?) := by
  have hwp : (agentRunWorkflow env input).prog.wp receipts
      (fun _ _ m => GivenBack P.input m) noVars [] :=
    wp_prog.2 (agentRunWorkflow_receipts hP hs)
  simp only [Run.returned?, Option.map_eq_some_iff] at hret
  obtain ⟨r, hr, -⟩ := hret
  rw [← Monitor.observe_record]
  exact (Prog.wp_sound (O := receipts) trivial hwp h).result hr

end Runs

/-! ## Services -/

/-- The cleanup of something an attempt created was requested. -/
def CleanupRequested (log : History) : Created → Prop
  | .key key => ∃ v, .scheduled (.revokeLLMKey key) v ∈ log
  | .pvc ns pvc => ∃ name, (∃ v, .scheduled (.scaleDownDeployment name ns) v ∈ log) ∧
    ∃ v, .scheduled (.archiveAndCleanup name pvc ns) v ∈ log
  | .deployment ns name => (∃ v, .scheduled (.scaleDownDeployment name ns) v ∈ log) ∧
    ∃ pvc v, .scheduled (.archiveAndCleanup name pvc ns) v ∈ log

/-- The run has heard of something an attempt created: of the key itself, or of the deployment. -/
def Reported (log : History) : Created → Prop
  | .key key => key ≠ "" ∧ ∃ i, .completed (.provisionLLMKey i) (.ok key) ∈ log
  | _ => ∃ name i, .completed (.createAgentDeployment i) (.ok name) ∈ log

section Services

variable {P : Pipeline} {s : Service provisioning Vars (Except (Option WorkflowError)
  (Option WorkflowError))} {err : Option WorkflowError} {obj : Created} {log : History}

def Ordered (log : History) : Created → Prop
  | .key _ => True
  | .pvc ns pvc => ∃ i, Receipt.asked i ∈ log.filterMap receipt? ∧
    ns = i.namespace_ ∧ pvc = s!"aot-ws-{i.agentRunName}"
  | .deployment ns name => ∃ i, Receipt.asked i ∈ log.filterMap receipt? ∧
    ns = i.namespace_ ∧ name = i.name

theorem Ordered.mono {log' : History} (hlog : log <+: log')
    (h : Ordered log obj) : Ordered log' obj := by
  have hsub := (hlog.filterMap receipt?).subset
  cases obj with
  | key key => trivial
  | pvc ns pvc | deployment ns name => obtain ⟨i, hi, heq⟩ := h; exact ⟨i, hsub hi, heq⟩

theorem asked_of_scheduled {i v} (h : .scheduled (.createAgentDeployment i) v ∈ log) :
    Receipt.asked i ∈ log.filterMap receipt? := mem_receipts.2 ⟨v, h⟩

/-- What attempts create belongs to a deployment that was asked for, and the name an attempt returns
is the one it was given. -/
theorem ordered_of_reaches {c : Run}
    (h : (Service.start provisioning c []).Reaches s) :
    (∀ obj ∈ s.env, Ordered s.run.world.log obj) ∧
      ∀ i name, ⟨.createAgentDeployment i, .ok name⟩ ∈ s.answers →
        Receipt.asked i ∈ s.run.world.log.filterMap receipt? ∧ name = i.name := by
  refine h.invariant (fun log env answers => (∀ obj ∈ env, Ordered log obj) ∧
    ∀ i name, ⟨.createAgentDeployment i, .ok name⟩ ∈ answers →
      Receipt.asked i ∈ log.filterMap receipt? ∧ name = i.name) ⟨nofun, nofun⟩ ?_ ?_ nofun
  · rintro log log' env answers hlog ⟨henv, hans⟩
    exact ⟨fun obj hobj => (henv obj hobj).mono hlog, fun i name hi =>
      (hans i name hi).imp_left fun h => (hlog.filterMap receipt?).subset h⟩
  · rintro log env _ answers c v r hsch ⟨created, rfl, hcreates⟩ ⟨henv, hans⟩
    constructor
    · intro obj hobj
      rcases mem_append.1 hobj with hobj | hobj
      · exact henv obj hobj
      · rcases hcreates.cases hobj with ⟨key, rfl⟩ | ⟨i, rfl, rfl | rfl⟩
        · trivial
        all_goals exact ⟨i, asked_of_scheduled hsch, rfl, rfl⟩
    · intro i name hi
      rcases mem_append.1 hi with hi | hi
      · exact hans i name hi
      · simp only [mem_map, Option.mem_toList] at hi
        obtain ⟨r', rfl, heq⟩ := hi
        cases heq
        exact ⟨asked_of_scheduled hsch, hcreates.deploymentName⟩

theorem agentrun_ne_empty (name : String) : s!"agentrun-{name}" ≠ "" := by
  rw [Ne, String.append_eq_empty_iff]
  exact fun h => absurd h.1 (by decide)

theorem cleanupRequested_receipts : CleanupRequested log obj ↔
    let m := log.filterMap receipt?
    match obj with
    | .key key => .revoked key ∈ m
    | .pvc ns pvc => ∃ name, .scaled name ns ∈ m ∧ .archived name pvc ns ∈ m
    | .deployment ns name => .scaled name ns ∈ m ∧ ∃ pvc, .archived name pvc ns ∈ m := by
  cases obj <;> simp only [CleanupRequested, mem_receipts, Receipt.In]

theorem reported_receipts : Reported log obj ↔
    let m := log.filterMap receipt?
    match obj with
    | .key key => key ≠ "" ∧ .key key ∈ m
    | _ => ∃ name, .deployment name ∈ m := by
  cases obj <;> simp only [Reported, mem_receipts, Receipt.In]

theorem cleanupRequested_iff (hP : pipeline? env input = some P) (hs : P.specDriven = false)
    (h : (Service.start provisioning (Run.start env input) []).Reaches s)
    (hret : Run.returned? s.run = some err) (hobj : obj ∈ s.env) :
    CleanupRequested s.run.world.log obj ↔ Reported s.run.world.log obj := by
  have hback := Run.givenBack hP hs h.run hret
  obtain ⟨hordered, hanswers⟩ := ordered_of_reaches h
  -- The deployments the run has heard of carry its name.
  have hheard : ∀ name, .deployment name ∈ s.run.world.log.filterMap receipt? →
      name = s!"agentrun-{P.input.agentRunName}" := by
    intro name hname
    obtain ⟨i, he⟩ := mem_receipts.1 hname
    obtain ⟨hi, rfl⟩ := hanswers i name (h.answered he)
    exact (hback.asked i hi).name
  rw [cleanupRequested_receipts, reported_receipts]
  cases obj with
  | key key => exact hback.revoked key
  | pvc ns pvc =>
    obtain ⟨i, hi, rfl, rfl⟩ := hordered _ hobj
    have hnamed := hback.asked i hi
    simp only [hback.scaled, hback.archived, hnamed.namespace_, hnamed.agentRunName, true_and,
      and_self]
    exact exists_congr fun name => ⟨And.right, fun hname =>
      ⟨hheard name hname ▸ agentrun_ne_empty _, hname⟩⟩
  | deployment ns name =>
    obtain ⟨i, hi, rfl, rfl⟩ := hordered _ hobj
    have hnamed := hback.asked i hi
    simp only [hback.scaled, hback.archived, hnamed.namespace_, hnamed.name, true_and, and_true]
    constructor
    · exact fun hsc => ⟨_, hsc.1.2⟩
    · rintro ⟨name, hname⟩
      rw [← hheard name hname]
      have hne : name ≠ "" := hheard name hname ▸ agentrun_ne_empty _
      exact ⟨⟨hne, hname⟩, _, rfl, hne, hname⟩

/-- Everything that attempts created is cleaned up exactly if the run has heard of all of it. -/
theorem cleanup_iff (hP : pipeline? env input = some P) (hs : P.specDriven = false)
    (h : (Service.start provisioning (Run.start env input) []).Reaches s)
    (hret : Run.returned? s.run = some err) :
    (∀ obj ∈ s.env, CleanupRequested s.run.world.log obj) ↔
      ∀ obj ∈ s.env, Reported s.run.world.log obj :=
  forall₂_congr fun _ hobj => cleanupRequested_iff hP hs h hret hobj

end Services

/-! ## Sample services -/

def failing (n : ℕ) : List (Event temporal) := replicate n (.settle fun _ => .error (.other "timeout"))

theorem failing_unanswered (n : ℕ) : ∀ e ∈ failing n, e.Unanswered := by
  intro e he
  rw [eq_of_mem_replicate he]
  exact fun _ _ => nofun

def mintingClient : LiteLLMClient where
  masterKey := "sk-master"
  modelIDs := .ok []
  generateKey _ := (some "sk-1", .ok "sk-1")

def sampleService :
    Service provisioning Vars (Except (Option WorkflowError) (Option WorkflowError)) :=
  .start provisioning (Run.start sampleEnv {}) []

def mintedService (answers : List (Durable.Answer temporal)) :
    Service provisioning Vars (Except (Option WorkflowError) (Option WorkflowError)) :=
  ⟨(Run.start sampleEnv {}).settleDown 60, [.key "sk-1"], answers⟩

theorem reaches_mintedService : sampleService.Reaches (mintedService []) :=
  (Service.reaches_settleDown 60 sampleService).tail (.attempt _ _ none (.head _)
    ⟨[.key "sk-1"], rfl, some mintingClient, .inr ⟨prefix_rfl, rfl⟩⟩)

def creatingClient : K8sClient := fun _ => (true, .ok)

def sampleDeployment : CreateAgentDeploymentInput where
  name := "agentrun-"
  namespace_ := ""
  agentRunName := ""
  repos := []
  prompt := ""
  devboxConfig := ""
  image := ""
  envVars := []
  llmKey := "sk-1"
  liteLLMBaseURL := ""
  modelID := "litellm/default"
  specContent := ""
  gitHubTokenSecretName := ""

def sampleAnswers : List (Durable.Answer temporal) :=
  [⟨.provisionLLMKey ⟨"", "", "", 0⟩, .ok "sk-1"⟩,
    ⟨.createAgentDeployment sampleDeployment, .ok "agentrun-"⟩]

def toldRun : Run :=
  Config.after 60 (Run.start sampleEnv {})
    ([.settle fun
      | .provisionLLMKey _ => .ok "sk-1"
      | _ => .error .canceled,
    .settle fun
      | .createAgentDeployment _ => .ok "agentrun-"
      | _ => .error .canceled] ++ failing 9)

def toldService :
    Service provisioning Vars (Except (Option WorkflowError) (Option WorkflowError)) :=
  ⟨toldRun, [.key "sk-1", .pvc "" "aot-ws-", .deployment "" "agentrun-"], sampleAnswers⟩

theorem reaches_toldService : sampleService.Reaches toldService := by
  have hkey : Service.Step { sampleService with run := sampleService.run.settleDown 60 }
      (mintedService (sampleAnswers.take 1)) :=
    .attempt (I := temporal) (.provisionLLMKey ⟨"", "", "", 0⟩) _ (some (.ok "sk-1")) (.head _)
      ⟨[.key "sk-1"], rfl, some mintingClient, .inl ⟨rfl, rfl⟩⟩
  have htold := ((Service.reaches_settleDown 60 sampleService).tail hkey).tail
    (.settle (I := temporal) (c := .provisionLLMKey ⟨"", "", "", 0⟩) "sk-1" rfl (mem_singleton_self _))
  have hmade := (htold.trans (Service.reaches_settleDown 60 _)).tail
    (.attempt (I := temporal) (.createAgentDeployment sampleDeployment) _ (some (.ok "agentrun-"))
      (mem_of_getElem? (i := 2) rfl)
      ⟨[.pvc "" "aot-ws-", .deployment "" "agentrun-"], rfl, creatingClient, .inl ⟨rfl, rfl⟩⟩)
  exact (hmade.tail (.settle (I := temporal) (c := .createAgentDeployment sampleDeployment) "agentrun-" rfl
    (mem_of_getElem? (i := 1) rfl))).trans
    (Service.reaches_after (failing_unanswered 9) 60 _)

theorem cleanup_iff_toldService :
    Run.returned? toldService.run ≠ none ∧ toldService.env ≠ [] ∧
      ∀ obj ∈ toldService.env, CleanupRequested toldService.run.world.log obj := by
  refine ⟨nofun, nofun, ?_⟩
  have hsingle : pipeline? sampleEnv {} = some ⟨false, sampleEnv, preamble {}⟩ := rfl
  refine (cleanup_iff hsingle rfl reaches_toldService rfl).2 ?_
  have hkey : .key "sk-1" ∈ toldService.run.world.log.filterMap receipt? :=
    mem_of_getElem? (i := 0) rfl
  have hname : .deployment "agentrun-" ∈ toldService.run.world.log.filterMap receipt? :=
    mem_of_getElem? (i := 2) rfl
  intro obj hobj
  rw [reported_receipts]
  simp only [toldService, mem_cons, not_mem_nil, or_false] at hobj
  rcases hobj with rfl | rfl | rfl
  · exact ⟨by decide, hkey⟩
  all_goals exact ⟨_, hname⟩

/-- The attempt is cut off after it has minted the key, and the run returns without revoking it. -/
theorem minted_key_leaks : ∃ s err, sampleService.Reaches s ∧ Run.returned? s.run = some err ∧
    .key "sk-1" ∈ s.env ∧ ¬ CleanupRequested s.run.world.log (.key "sk-1") := by
  refine ⟨_, _, reaches_mintedService.trans (Service.reaches_after (failing_unanswered 1) 60 _),
    rfl, mem_singleton_self _, ?_⟩
  rw [cleanupRequested_receipts]
  exact not_mem_nil

end Uncworks
