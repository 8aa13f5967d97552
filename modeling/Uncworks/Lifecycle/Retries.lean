import Uncworks.Temporal.SpecDriven

/-!
# What an attempt is told of the one before

The loop of the spec-driven pipeline carries three texts from attempt to attempt: salvage guidance,
review feedback and a failure report.
-/

namespace Uncworks

open List

/-- What a verification that did not pass came to: its result, or the error of the activity. -/
abbrev Outcome := Except String VerificationResult

/-- Whether the outcome has something to tell that the prompt prefers to the failure report. -/
def Informs : Outcome → Prop
  | .error _ => False
  | .ok result => result.salvageGuidance ≠ "" ∨ result.reviewFeedback ≠ ""

/-- What `verifyStage` hands to the next attempt. -/
def Retry.next (r : Retry) : Outcome → Retry
  | .error text =>
    { r with
      attempt := r.attempt + 1
      lastFailureReport := s!"Verification activity error: {text}" }
  | .ok result => r.afterFailure result

section

variable (outcomes : List Outcome)

def retryAfter : Retry := outcomes.foldl Retry.next {}

theorem retryAfter_append (o : Outcome) :
    retryAfter (outcomes ++ [o]) = (retryAfter outcomes).next o := by
  rw [retryAfter, foldl_append, foldl_cons, foldl_nil, retryAfter]

theorem attempt_retryAfter :
    (retryAfter outcomes).attempt = outcomes.length + 1 := by
  induction outcomes using reverseRecOn with
  | nil => rfl
  | append_singleton outcomes o ih =>
    have hnext : ((retryAfter outcomes).next o).attempt = (retryAfter outcomes).attempt + 1 := by
      cases o <;> rfl
    rw [retryAfter_append, hnext, ih, length_append]
    rfl

theorem retryAfter_blank_iff :
    (retryAfter outcomes).lastSalvageGuidance = "" ∧ (retryAfter outcomes).lastReviewFeedback = "" ↔
      ∀ o ∈ outcomes, ¬ Informs o := by
  induction outcomes using reverseRecOn with
  | nil => simp [retryAfter]
  | append_singleton outcomes o ih =>
    rw [retryAfter_append, forall_mem_append, ← ih, forall_mem_singleton]
    rcases o with text | result
    · simp [Retry.next, Informs]
    · simp only [Retry.next, Retry.afterFailure, Informs, not_or]
      by_cases hs : result.salvageGuidance = "" <;> by_cases hf : result.reviewFeedback = "" <;>
        simp [hs, hf]

end

theorem head_buildRetryPrompt (r : Retry) (changeName prompt : String) :
    (buildRetryPrompt r changeName prompt).toList.head? = some (
      if r.lastSalvageGuidance ≠ "" then 'S' else if r.lastReviewFeedback ≠ "" then 'M'
      else if r.lastFailureReport ≠ "" then 'P' else 'I') := by
  unfold buildRetryPrompt
  split_ifs <;> simp only [String.toList_append] <;> rfl

/-- The prompt of the attempt after these outcomes is the one that the last of them gives alone
exactly if it has guidance or feedback, or none of the earlier ones had. -/
theorem buildRetryPrompt_last_iff (outcomes : List Outcome) (last : Outcome)
    (changeName prompt : String) :
    buildRetryPrompt (retryAfter (outcomes ++ [last])) changeName prompt =
        buildRetryPrompt (Retry.next { attempt := outcomes.length + 1 } last) changeName prompt ↔
      Informs last ∨ ∀ earlier ∈ outcomes, ¬ Informs earlier := by
  rw [retryAfter_append, ← retryAfter_blank_iff, ← attempt_retryAfter]
  generalize retryAfter outcomes = r
  by_cases hlast : Informs last
  · rcases last with text | result
    · exact hlast.elim
    · refine iff_of_true ?_ (.inl hlast)
      by_cases hs : result.salvageGuidance = ""
      · have hf := hlast.resolve_left (· hs)
        simp [Retry.next, Retry.afterFailure, hs, hf]
      · simp [buildRetryPrompt, Retry.next, Retry.afterFailure, hs]
  · -- Guidance and feedback stay as they were; the report is the one of the last outcome.
    have hkept : ∀ r : Retry, (r.next last).lastSalvageGuidance = r.lastSalvageGuidance ∧
        (r.next last).lastReviewFeedback = r.lastReviewFeedback ∧
        (r.next last).lastFailureReport = (Retry.next {} last).lastFailureReport := by
      intro r
      rcases last with text | result
      · exact ⟨rfl, rfl, rfl⟩
      · obtain ⟨hs, hf⟩ := not_or.1 hlast
        simp_all [Retry.next, Retry.afterFailure]
    simp only [hlast, false_or]
    constructor
    · intro heq
      have hhead := congrArg (fun s : String => s.toList.head?) heq
      simp only [head_buildRetryPrompt] at hhead
      by_cases hs : r.lastSalvageGuidance = "" <;> by_cases hf : r.lastReviewFeedback = "" <;>
        by_cases hr : (Retry.next {} last).lastFailureReport = "" <;> simp_all
    · rintro ⟨hs, hf⟩
      have hattempt : (r.next last).attempt = (Retry.next { attempt := r.attempt } last).attempt := by
        cases last <;> rfl
      simp [buildRetryPrompt, hkept, hs, hf]

/-- The second attempt ended with an error of the activity; the third is told what the first was. -/
theorem stale_guidance :
    buildRetryPrompt (retryAfter [.ok { pass := false, salvageGuidance := "fix a.go" }, .error "x"])
        "c" "p" =
      buildRetryPrompt { attempt := 3, lastSalvageGuidance := "fix a.go" } "c" "p" ∧
    buildRetryPrompt (retryAfter [.ok { pass := false, salvageGuidance := "fix a.go" }, .error "x"])
        "c" "p" ≠
      buildRetryPrompt (Retry.next { attempt := 2 } (.error "x")) "c" "p" := by
  decide +kernel

end Uncworks
