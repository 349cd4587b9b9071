import ResidentCrm.Review.Verdict

/-!
# The review loop

The graph of `core/agent_orchestrator.py` from `investigate` on: `investigator_node`,
`reviewer_node`, the routing of `check_approval`, and `review_summary` of the state the run leaves.
A `Round` is what one pass of the loop is given from outside: the evidence in the prompts and what
the models answer.
-/

namespace ResidentCrm

namespace Review

/-! ## Prompts -/

structure Section where
  label : Text
  body : Text
  deriving DecidableEq

def render (sections : List Section) : Text :=
  "\n\n".toList.intercalate
    (sections.map fun x => "### ".toList ++ x.label ++ "\n".toList ++ x.body)

def previousAnalysis : Text := "Your previous analysis".toList

def reviewerFeedback : Text := "Reviewer Feedback (You MUST fix your previous analysis)".toList

/-- What one pass of the loop is given. The evidence is what the prompts hold beside the previous
analysis and the feedback, the logs already cut to fit. -/
structure Round where
  /-- `docs_enabled()`: the prompt is a list of sections. -/
  docs : Bool
  service : List Section
  sections : List Section
  /-- The evidence of the prompt without documentation. -/
  evidence : Text
  /-- The harness's prompt and analysis, where the lane runs on it and the task succeeds. -/
  harness : Option (Text × Text)
  analysis : Text
  reply : Reply
  deriving DecidableEq

/-- `build_retry_prompt`, or the text sent without documentation. -/
def Round.retryPrompt (r : Round) (investigation : Text) (feedback : Value) : Text :=
  if r.docs then
    render (r.service ++ [⟨previousAnalysis, investigation⟩, ⟨reviewerFeedback, feedback.shown⟩] ++
      r.sections)
  else
    previousAnalysis ++ ":\n".toList ++ investigation ++ "\n\n".toList ++
      (reviewerFeedback ++ ": ".toList ++ feedback.shown ++ "\n\n".toList ++ r.evidence)

/-- `build_investigation_prompt`, or the text sent without documentation. -/
def Round.freshPrompt (r : Round) : Text :=
  if r.docs then render (r.service ++ r.sections) else r.evidence

/-! ## State and nodes -/

/-- What of `GraphState` the loop reads. -/
structure GraphState where
  investigation : Text
  reviewerFeedback : Value
  retryCount : ℕ
  resolutionSource : Text
  deriving DecidableEq

structure Asked where
  retry : Bool
  prompt : Text
  deriving DecidableEq

/-- `investigator_node`: what it asks and the analysis it gets. -/
def investigate (s : GraphState) (r : Round) : Asked × Text :=
  let isRetry := s.reviewerFeedback.truthy
  match isRetry, r.harness with
  | false, some (prompt, analysis) => (⟨false, prompt⟩, analysis)
  | false, none => (⟨false, r.freshPrompt⟩, r.analysis)
  | true, _ => (⟨true, r.retryPrompt s.investigation s.reviewerFeedback⟩, r.analysis)

/-- One pass: what was asked and answered, where it leads, and the state after it. `next` is nothing
where the review or the routing raises. -/
structure Turn where
  asked : Asked
  analysis : Text
  review : Option Reviewed
  next : Option Next
  after : GraphState
  deriving DecidableEq

/-- `investigate`, `review` and `check_approval`. -/
def turn (limit : ℤ) (s : GraphState) (r : Round) : Turn :=
  let asked := (investigate s r).1
  let analysis := (investigate s r).2
  match r.reply.review with
  | none => ⟨asked, analysis, none, none, { s with investigation := analysis }⟩
  | some x =>
    let after := { s with
      investigation := analysis
      reviewerFeedback := x.feedback
      retryCount := s.retryCount + 1 }
    ⟨asked, analysis, some x, reviewDecision limit after.reviewerFeedback after.retryCount, after⟩

/-- The passes of the loop, as long as the routing goes back to the Investigator. -/
def turns (limit : ℤ) : GraphState → List Round → List Turn
  | _, [] => []
  | s, r :: rounds =>
    let t := turn limit s r
    t :: if t.next = some .investigator then turns limit t.after rounds else []

def final (s : GraphState) (ts : List Turn) : GraphState := ts.foldl (fun _ t => t.after) s

/-- A run as it starts: nothing of an earlier run is left. -/
def fresh : GraphState := ⟨[], .text [], 0, "agent".toList⟩

/-- The graph on one packet. A runbook that is served ends it before the loop. -/
def analyze (limit : ℤ) (runbook : Option Text) (rounds : List Round) : List Turn × GraphState :=
  match runbook with
  | some source => ([], { fresh with resolutionSource := "runbook:".toList ++ source })
  | none => (turns limit fresh rounds, final fresh (turns limit fresh rounds))

/-! ## `review_summary` -/

inductive ReviewOutcome
  | approved | approvedAfterRejection | escalated | runbook | notReviewed
  deriving DecidableEq, Repr

structure Summary where
  reviews : ℕ
  reviewerRejections : ℕ
  outcome : ReviewOutcome
  deriving DecidableEq, Repr

/-- `review_summary`; nothing where reading the feedback raises. -/
def reviewSummary (s : GraphState) : Option Summary :=
  if "runbook:".toList.isPrefixOf s.resolutionSource then some ⟨0, 0, .runbook⟩
  else if s.retryCount = 0 then some ⟨0, 0, .notReviewed⟩
  else (isReviewerApproved s.reviewerFeedback).map fun approved =>
    let rejections := if approved then s.retryCount - 1 else s.retryCount
    ⟨s.retryCount, rejections,
      if approved then (if rejections ≠ 0 then .approvedAfterRejection else .approved)
      else .escalated⟩

/-! ## Facts about one pass -/

theorem body_infix_render {sections : List Section} {x : Section} (h : x ∈ sections) :
    x.body <:+: render sections := by
  unfold render
  generalize "\n\n".toList = sep
  induction sections with
  | nil => cases h
  | cons y ys ih =>
    rw [List.map_cons]
    rcases List.mem_cons.1 h with rfl | h
    · have hbody : x.body <:+: "### ".toList ++ x.label ++ "\n".toList ++ x.body :=
        (List.suffix_append _ _).isInfix
      cases ys with
      | nil => simpa using hbody
      | cons z zs =>
        rw [List.map_cons, List.intercalate_cons_cons, List.append_assoc]
        exact hbody.trans (List.prefix_append _ _).isInfix
    · have hne : ys.map (fun x => "### ".toList ++ x.label ++ "\n".toList ++ x.body) ≠ [] := by
        simpa using List.ne_nil_of_mem h
      rw [List.intercalate_cons_of_ne_nil hne]
      exact (ih h).trans (List.suffix_append _ _).isInfix

/-- A retry's prompt holds the previous analysis and the feedback in full. -/
theorem infix_retryPrompt (r : Round) (investigation : Text) (feedback : Value) :
    investigation <:+: r.retryPrompt investigation feedback ∧
      feedback.shown <:+: r.retryPrompt investigation feedback := by
  unfold Round.retryPrompt
  split
  · constructor
    · exact body_infix_render (x := ⟨previousAnalysis, investigation⟩) (by simp)
    · exact body_infix_render (x := ⟨reviewerFeedback, feedback.shown⟩) (by simp)
  · constructor
    · refine ⟨previousAnalysis ++ ":\n".toList, "\n\n".toList ++ (reviewerFeedback ++ ": ".toList ++
        feedback.shown ++ "\n\n".toList ++ r.evidence), ?_⟩
      simp only [List.append_assoc]
    · refine ⟨previousAnalysis ++ ":\n".toList ++ investigation ++ "\n\n".toList ++
        reviewerFeedback ++ ": ".toList, "\n\n".toList ++ r.evidence, ?_⟩
      simp only [List.append_assoc]

section Turn

variable {limit : ℤ} {s : GraphState} {r : Round}

theorem turn_asked : (turn limit s r).asked = (investigate s r).1 := by
  unfold turn
  split <;> rfl

theorem turn_review : (turn limit s r).review = r.reply.review := by
  unfold turn
  split <;> next h => exact h.symm

theorem turn_investigation : (turn limit s r).after.investigation = (turn limit s r).analysis := by
  unfold turn
  split <;> rfl

theorem turn_of_review (limit : ℤ) (s : GraphState) {x : Reviewed} (h : r.reply.review = some x) :
    (turn limit s r).next = reviewDecision limit x.feedback (s.retryCount + 1) ∧
      (turn limit s r).after.reviewerFeedback = x.feedback ∧
      (turn limit s r).after.retryCount = s.retryCount + 1 := by
  simp only [turn, h, and_self]

/-- Where the loop goes on, the review was made and its feedback does not approve. -/
theorem turn_next_eq {n : Next} (h : (turn limit s r).next = some n) :
    ∃ x, r.reply.review = some x ∧ reviewDecision limit x.feedback (s.retryCount + 1) = some n := by
  cases hr : r.reply.review with
  | none => simp [turn, hr] at h
  | some x => exact ⟨x, rfl, (turn_of_review limit s hr).1 ▸ h⟩

theorem turn_resolutionSource : (turn limit s r).after.resolutionSource = s.resolutionSource := by
  unfold turn
  split <;> rfl

theorem investigate_retry : (investigate s r).1.retry = s.reviewerFeedback.truthy := by
  unfold investigate
  cases s.reviewerFeedback.truthy with
  | true => rfl
  | false => cases r.harness <;> rfl

theorem investigate_of_truthy (h : s.reviewerFeedback.truthy = true) :
    (investigate s r).1 = ⟨true, r.retryPrompt s.investigation s.reviewerFeedback⟩ := by
  simp only [investigate, h]

end Turn

end Review

end ResidentCrm
