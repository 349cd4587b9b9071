import ResidentCrm.Lib.Text

/-!
# The Reviewer's verdict

`core/agent_orchestrator.py`: when a reply of the Reviewer approves (`is_reviewer_approved`), where
the packet goes after it (`review_decision`), and what `reviewer_node` makes of a reply of either
transport: the agent harness's JSON object, or the direct model's text.
-/

namespace ResidentCrm

namespace Review

/-- A value of a JSON field or of a model's message, as far as the code can tell: text, another
value that is false, or another value that is true, with what prints for it. -/
inductive Value
  | text (t : Text)
  | blank
  | object (printed : Text)
  deriving DecidableEq

/-- `bool(value)`. -/
def Value.truthy : Value → Bool
  | text t => t ≠ []
  | blank => false
  | object _ => true

def Value.shown : Value → Text
  | text t => t
  | blank => []
  | object printed => printed

/-! ## `is_reviewer_approved` -/

/-- The markdown that may stand around the verdict. -/
def marks : List Char := "*_`'\"".toList

/-- `_LEADING_THINK.sub("", …)`. -/
def withoutThink (s : Text) : Text :=
  ((Text.afterPattern "<think>".toList (s.dropWhile Text.isSpace)).bind
    (Text.afterFirst "</think>".toList)).getD s

/-- `_APPROVED_LINE.fullmatch`: the word and closing markdown, then the end of the line, or a full
stop or exclamation mark and whatever follows a space. -/
def approvedLine (s : Text) : Bool :=
  match Text.afterPattern "approved".toList s with
  | none => false
  | some rest =>
    match rest.dropWhile (· ∈ marks) with
    | [] => true
    | c :: rest =>
      if c = '.' ∨ c = '!' then
        match rest.dropWhile (· ∈ marks) with
        | [] => true
        | c :: commentary => Text.isSpace c && commentary.all (· ≠ '\n')
      else false

def candidate (line : Text) : Text := Text.lstrip (marks ++ "# \t".toList) (Text.strip line)

def unworded (line : Text) : Bool := Text.stripOf (marks ++ " \t\r".toList) (candidate line) = []

/-- The verdict of a text: that of its first worded line. -/
def approves (s : Text) : Bool :=
  match (Text.splitlines (withoutThink s)).find? (¬ unworded ·) with
  | some line => approvedLine (Text.rstrip (candidate line))
  | none => false

/-- `is_reviewer_approved`, or nothing where the value is no text and the pattern raises. -/
def isReviewerApproved : Value → Option Bool
  | .text t => some (approves t)
  | .blank => some (approves [])
  | .object _ => none

theorem isReviewerApproved_approved : isReviewerApproved (.text "APPROVED".toList) = some true := by
  decide

/-! ## `review_decision` -/

inductive Next
  | synthesis | investigator | escalate
  deriving DecidableEq, Repr

/-- `review_decision`, for `MAX_INVESTIGATION_RETRIES = limit`. -/
def reviewDecision (limit : ℤ) (feedback : Value) (reviews : ℕ) : Option Next :=
  (isReviewerApproved feedback).map fun approved =>
    if approved then .synthesis else if limit ≤ reviews then .escalate else .investigator

section Decision

variable {limit : ℤ} {feedback : Value} {reviews : ℕ}

theorem reviewDecision_eq_none :
    reviewDecision limit feedback reviews = none ↔ isReviewerApproved feedback = none :=
  Option.map_eq_none_iff

theorem reviewDecision_eq_synthesis :
    reviewDecision limit feedback reviews = some .synthesis ↔
      isReviewerApproved feedback = some true := by
  unfold reviewDecision
  rcases isReviewerApproved feedback with - | - | -
  · simp
  · simp only [Option.map_some, Bool.false_eq_true, if_false]
    split <;> simp
  · simp

theorem reviewDecision_eq_investigator :
    reviewDecision limit feedback reviews = some .investigator ↔
      isReviewerApproved feedback = some false ∧ (reviews : ℤ) < limit := by
  unfold reviewDecision
  rcases isReviewerApproved feedback with - | - | -
  · simp
  · simp only [Option.map_some, Bool.false_eq_true, if_false, true_and]
    split
    · next h => simp [Int.not_lt.2 h]
    · next h => simp [Int.not_le.1 h]
  · simp

end Decision

/-! ## `reviewer_node` -/

inductive Verdict
  | approved | rejected
  deriving DecidableEq, Repr

inductive Path
  | harness | direct
  deriving DecidableEq, Repr

/-- The JSON object the harness's Reviewer writes; a field may be missing. `ruleRaises`: it proposes
a learning rule and queueing it raises. -/
structure HarnessResult where
  verdict : Option Value
  feedback : Option Value
  ruleRaises : Bool
  deriving DecidableEq

/-- What the Reviewer answers: through the harness, where the lane runs on it and the task yields an
object, and otherwise as the direct model's message. -/
structure Reply where
  harness : Option HarnessResult
  content : Value
  deriving DecidableEq

structure Reviewed where
  feedback : Value
  path : Path
  verdict : Verdict
  deriving DecidableEq

/-- `verdict.upper()`, which only text has. -/
def HarnessResult.verdictText (h : HarnessResult) : Option Text :=
  match h.verdict.getD (.text "REJECTED".toList) with
  | .text t => some (Text.upper t)
  | _ => none

/-- The harness branch; nothing where it raises and falls back. -/
def harnessReview (h : HarnessResult) : Option Reviewed :=
  h.verdictText.bind fun verdict =>
    if verdict = "APPROVED".toList then
      some ⟨.text "APPROVED".toList, .harness, .approved⟩
    else if h.ruleRaises then none
    else some ⟨h.feedback.getD (.text []), .harness, .rejected⟩

/-- The direct branch; nothing where it raises. -/
def directReview (content : Value) : Option Reviewed :=
  (isReviewerApproved content).map fun approved =>
    ⟨content, .direct, if approved then .approved else .rejected⟩

def Reply.review (r : Reply) : Option Reviewed :=
  match r.harness.bind harnessReview with
  | some reviewed => some reviewed
  | none => directReview r.content

theorem approves_of_approved {r : Reply} {x : Reviewed} (h : r.review = some x)
    (hx : x.verdict = .approved) : isReviewerApproved x.feedback = some true := by
  have hdirect : ∀ {c : Value}, directReview c = some x →
      isReviewerApproved x.feedback = some true := by
    intro c hc
    obtain ⟨approved, ha, rfl⟩ := Option.map_eq_some_iff.1 hc
    cases approved with
    | true => exact ha
    | false => cases hx
  unfold Reply.review at h
  split at h
  · next reviewed hr =>
    obtain rfl : reviewed = x := Option.some.inj h
    obtain ⟨result, -, hr⟩ := Option.bind_eq_some_iff.1 hr
    obtain ⟨verdict, -, hr⟩ := Option.bind_eq_some_iff.1 hr
    split at hr
    · cases hr
      exact isReviewerApproved_approved
    · split at hr <;> cases hr
      cases hx
  · exact hdirect h

end Review

end ResidentCrm
