import ResidentCrm.Dlt.Finding
import ResidentCrm.Review.Verdict

/-!
# Where a finding comes from

`dlt/reuse.py` decides whether a case needs the model, may be served its group's recommendation, or
has a fixed treatment; `dlt/groups.py` says which recommendations may be served; `dlt/canned.py`
builds the fixed ones, and the synthesis step of `dlt/orchestrator.py` the model's.
-/

namespace ResidentCrm.Dlt

inductive GroupState where
  | stateNone
  | stateDraft
  | stateFinal
deriving DecidableEq, Repr

/-- What of a group's record bears on serving its recommendation. A fingerprint without a record
reads as the blank one. -/
structure Group (R : Type*) where
  recommendation : Option (Finding R) := none
  state : GroupState := .stateNone
  corroboration : Option Corroboration := none
deriving DecidableEq

section

variable {R : Type*}

/-- `describes_one_occurrence`: by the verdict stored with the finding, or the marks a discrepancy
leaves on it. -/
def Group.describesOneOccurrence (g : Group R) : Bool :=
  g.corroboration.any (·.isDiscrepancy) ||
    g.recommendation.any fun f =>
      f.discrepancy.any (· ≠ []) || contradictedLabel ∈ f.ceilingsApplied

def Group.hasUsableRecommendation (g : Group R) : Bool :=
  g.recommendation.isSome && (g.state ∈ [GroupState.stateDraft, .stateFinal]) &&
    !g.describesOneOccurrence

/-- `attach_recommendation`, as a draft. -/
def attachRecommendation (f : Finding R) (corroboration : Corroboration) : Group R where
  recommendation := some f
  state := .stateDraft
  corroboration := some corroboration

namespace Reuse

inductive Decision where
  | llmRequired
  | reuseGroup
  | canned
deriving DecidableEq, Repr

def decide (reuseEnabled : Bool) (failureClass : FailureClass) (verdict : Corroboration)
    (group : Group R) : Decision :=
  if failureClass ≠ .business then .canned
  else if verdict.isDiscrepancy then .llmRequired
  else if reuseEnabled = false then .llmRequired
  else if group.hasUsableRecommendation = false then .llmRequired
  else .reuseGroup

/-- Only a case of class A whose logs do not contradict it is served a recommendation, and only
one that is no finding about a single occurrence. -/
theorem decide_eq_reuseGroup {reuseEnabled : Bool} {failureClass : FailureClass}
    {verdict : Corroboration} {group : Group R} :
    decide reuseEnabled failureClass verdict group = .reuseGroup ↔ failureClass = .business ∧
      verdict.isDiscrepancy = false ∧ reuseEnabled = true ∧
        group.hasUsableRecommendation = true := by
  unfold decide
  split
  · next h => simp [h]
  split
  · next h => simp [h]
  split
  · next h => simp [h]
  split
  · next h => simp [h]
  next hclass hverdict henabled husable =>
  simp only [true_iff]
  exact ⟨not_not.1 hclass, by simpa using hverdict, by simpa using henabled, by simpa using husable⟩

end Reuse

/-! ## The fixed treatments -/

def cannedAction : FailureClass → Action
  | .technical => .redriveAfterRecovery
  | .codeDefect => .routeToDev
  | .business | .unknown => .needsManualReview

/-- `canned.build`: no model ran, so there is no confidence. -/
def cannedFinding (failureClass : FailureClass) (corroboration : Corroboration) (reason : Text) :
    Finding R where
  action := cannedAction failureClass
  discrepancy :=
    if corroboration.isDiscrepancy then
      some ("The logs do not support the declared exception: ".toList ++ reason ++
        ". Treat the declared root cause with suspicion.".toList)
    else none

/-! ## The model's answer -/

section

variable [LinearOrder R] [Zero R] [One R]

/-- `parse_finding` of a reply that carries, or does not carry, a finding. -/
def parseFinding (reply : Option (Finding R)) : Option (Finding R) := reply.filter fun f => f.Valid

/-- `synthesis_node`: the reply, or the one repair of it, stamped with whether the last review
approved; nothing where neither satisfies the contract. The reading of the review can raise. -/
def synthesise (feedback : Review.Value) (reply repair : Option (Finding R)) :
    Option (Option (Finding R)) :=
  (Review.isReviewerApproved feedback).map fun approved =>
    ((parseFinding reply).or (parseFinding repair)).map fun f =>
      { f with reviewerApproved := some approved }

/-- **The stamp is the review's**, whatever the reply says of its own. -/
theorem reviewerApproved_of_synthesise {feedback : Review.Value} {reply repair : Option (Finding R)}
    {f : Finding R} (h : synthesise feedback reply repair = some (some f)) :
    f.reviewerApproved = Review.isReviewerApproved feedback := by
  obtain ⟨approved, happroved, hf⟩ := Option.map_eq_some_iff.1 h
  obtain ⟨g, -, rfl⟩ := Option.map_eq_some_iff.1 hf
  exact happroved.symm

/-- The finding of a synthesis that failed its contract twice. -/
def failedSynthesis : Finding R where
  action := .needsManualReview
  confidence := some (some 0)

end

end

end ResidentCrm.Dlt
