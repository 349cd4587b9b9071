import ResidentCrm.Dlt.ReplayPolicy

/-!
# The analysis lane's review loop

The graph of `dlt/orchestrator.py`: `investigator_node`, `reviewer_node`, the routing of
`check_approval` and `synthesis_node`. The lane has the rejection lane's Reviewer, without its
learning rules, and never escalates: out of reviews it synthesises what it has, stamped with what
the last feedback reads as. Where that is the last review's own verdict is `Undisguised`.
-/

namespace ResidentCrm.Dlt

open Review (Value Reviewed isReviewerApproved)

/-! ## The Reviewer -/

/-- The JSON object the harness's Reviewer writes; a field may be missing. -/
structure HarnessReview where
  verdict : Option Value
  feedback : Option Value
deriving DecidableEq

structure Reply where
  harness : Option HarnessReview
  content : Value
deriving DecidableEq

/-- `reviewer_node`; nothing where it raises. -/
def Reply.review (r : Reply) : Option Reviewed :=
  Review.Reply.review ⟨r.harness.map fun h => ⟨h.verdict, h.feedback, false⟩, r.content⟩

/-- No rejection by the harness is worded as an approval. -/
def Reply.Undisguised (r : Reply) : Prop :=
  ∀ x ∈ r.review, x.path = .harness → x.verdict = .rejected →
    isReviewerApproved x.feedback ≠ some true

inductive ReviewDecision where
  | approved
  | exhausted
  | retry
deriving DecidableEq, Repr

/-- `review_decision`, for `DLT_MAX_INVESTIGATION_RETRIES = limit`. -/
def reviewDecision (limit : ℤ) (feedback : Value) (reviews : ℕ) : Option ReviewDecision :=
  (isReviewerApproved feedback).map fun approved =>
    if approved then .approved else if limit ≤ reviews then .exhausted else .retry

/-! ## The graph -/

/-- What one pass of the loop is given: the evidence block, the harness's analysis where the lane
runs on it and the task succeeds, and what the models answer. -/
structure Round where
  evidence : Text
  harness : Option (Text × Text)
  analysis : Text
  reply : Reply
deriving DecidableEq

structure GraphState where
  investigation : Text
  reviewerFeedback : Value
  retryCount : ℕ
deriving DecidableEq

def GraphState.fresh : GraphState := ⟨[], .text [], 0⟩

/-- `investigator_node`: the prompt and the analysis it gets; nothing where it raises. -/
def investigate (s : GraphState) (r : Round) : Option (Text × Text) :=
  let rejected := if s.reviewerFeedback.truthy then
    (isReviewerApproved s.reviewerFeedback).map (!·) else some false
  rejected.map fun isRetry =>
    match isRetry, r.harness with
    | false, some answered => answered
    | false, none => (r.evidence, r.analysis)
    | true, _ =>
      (r.evidence ++ "\n### Reviewer feedback on your previous attempt\n".toList ++
        s.reviewerFeedback.shown ++ "\n\nRevise your findings to address it.\n".toList, r.analysis)

/-- The passes of the loop up to the one that leads to `synthesise`: the state there, and the last
review. Nothing where a node raises, or the run is abandoned after the rounds given. -/
def loop (limit : ℤ) : GraphState → List Round → Option (GraphState × Reviewed)
  | _, [] => none
  | s, r :: rounds =>
    (investigate s r).bind fun asked =>
      r.reply.review.bind fun x =>
        let after : GraphState := ⟨asked.2, x.feedback, s.retryCount + 1⟩
        (reviewDecision limit after.reviewerFeedback after.retryCount).bind fun
          | .retry => loop limit after rounds
          | .approved | .exhausted => some (after, x)

/-- One run of the graph: the rounds of its loop and what the synthesis model answers. -/
structure GraphRun (R : Type*) where
  limit : ℤ
  rounds : List Round
  reply : Option (Finding R)
  repair : Option (Finding R)
deriving DecidableEq

/-- Of the reviews that take place after `reviews` others, none is a disguised rejection. -/
def Undisguised (limit : ℤ) : ℕ → List Round → Prop
  | _, [] => True
  | reviews, r :: rounds => r.reply.Undisguised ∧
      ∀ x ∈ r.reply.review, reviewDecision limit x.feedback (reviews + 1) = some .retry →
        Undisguised limit (reviews + 1) rounds

section

variable {R : Type*} [LinearOrder R] [Zero R] [One R] (g : GraphRun R)

/-- The finding that leaves the graph, with the last review's own verdict. -/
def GraphRun.leaves : Option (Finding R × Review.Verdict) :=
  (loop g.limit .fresh g.rounds).bind fun (s, x) =>
    (synthesise s.reviewerFeedback g.reply g.repair).bind fun finding =>
      finding.map fun f => (f, x.verdict)

/-- What the analysis lane is left with. -/
def GraphRun.lane : Lane R :=
  match loop g.limit .fresh g.rounds with
  | none => .raised
  | some (s, _) => .replied s.reviewerFeedback g.reply g.repair

/-- The synthesis model's reply, or its repair, satisfies the contract. -/
def GraphRun.Answered : Prop := ((parseFinding g.reply).or (parseFinding g.repair)).isSome = true

end

/-! ## The stamp -/

/-- A stamp that says what the verdict says, where there was one. -/
structure Honest (verdict : Option Review.Verdict) (stamp : Option Bool) : Prop where
  rejected : verdict = some .rejected → stamp = some false
  approved : verdict = some .approved → stamp ≠ some false

theorem honest_none {stamp : Option Bool} : Honest none stamp := ⟨nofun, nofun⟩

theorem honest_some {v : Review.Verdict} {approved : Bool} :
    Honest (some v) (some approved) ↔ (v = .rejected → approved = false) ∧
      (v = .approved → approved = true) := by
  constructor
  · intro h
    refine ⟨fun hv => ?_, fun hv => ?_⟩
    · simpa using h.rejected (congrArg some hv)
    · simpa using h.approved (congrArg some hv)
  · rintro ⟨hrej, happ⟩
    refine ⟨fun hv => ?_, fun hv => ?_⟩
    · simpa using hrej (Option.some.inj hv)
    · simpa using happ (Option.some.inj hv)

theorem Reply.approves {r : Reply} {x : Reviewed} (h : r.review = some x)
    (hx : x.verdict = .approved) : isReviewerApproved x.feedback = some true :=
  Review.approves_of_approved h hx

/-- The direct model's verdict is read off its message, so only the harness can disguise one. -/
theorem Reply.path_of_disguised {r : Reply} {x : Reviewed} (h : r.review = some x)
    (hx : x.verdict = .rejected) (happ : isReviewerApproved x.feedback = some true) :
    x.path = .harness := by
  unfold Reply.review Review.Reply.review at h
  split at h
  · next reviewed hr =>
    obtain rfl : reviewed = x := Option.some.inj h
    obtain ⟨result, -, hr⟩ := Option.bind_eq_some_iff.1 hr
    obtain ⟨verdict, -, hr⟩ := Option.bind_eq_some_iff.1 hr
    split at hr
    · cases hr
      rfl
    · split at hr <;> cases hr
      rfl
  · obtain ⟨approved, ha, rfl⟩ := Option.map_eq_some_iff.1 h
    obtain rfl : approved = true := Option.some.inj (ha.symm.trans happ)
    cases hx

section Loop

variable {limit : ℤ} {s after : GraphState} {x : Reviewed} {r : Round} {rounds : List Round}

theorem reviewDecision_eq_retry {feedback : Value} {reviews : ℕ} :
    reviewDecision limit feedback reviews = some .retry ↔
      isReviewerApproved feedback = some false ∧ ¬ limit ≤ reviews := by
  unfold reviewDecision
  rcases isReviewerApproved feedback with - | - | -
  · simp
  · simp only [Option.map_some, Bool.false_eq_true, if_false, true_and]
    split
    · next h => simp [h]
    · next h => simp [h]
  · simp

/-- Where the feedback of the pass before can be read, the Investigator does not raise. -/
theorem investigate_isSome (h : isReviewerApproved s.reviewerFeedback ≠ none) :
    ∃ asked, investigate s r = some asked := by
  obtain ⟨b, hb⟩ := Option.ne_none_iff_exists'.1 h
  unfold investigate
  rw [hb]
  split <;> exact ⟨_, rfl⟩

/-- One pass of the loop: the review is made, and either it is the last one or the loop goes on. -/
theorem loop_cons (h : loop limit s (r :: rounds) = some (after, x)) :
    ∃ y ∈ r.reply.review, ∃ investigation,
      (reviewDecision limit y.feedback (s.retryCount + 1) = some .retry ∧
        loop limit ⟨investigation, y.feedback, s.retryCount + 1⟩ rounds = some (after, x)) ∨
      (isReviewerApproved y.feedback ≠ none ∧
        after = ⟨investigation, y.feedback, s.retryCount + 1⟩ ∧ x = y) := by
  unfold loop at h
  obtain ⟨asked, -, h⟩ := Option.bind_eq_some_iff.1 h
  obtain ⟨y, hy, h⟩ := Option.bind_eq_some_iff.1 h
  obtain ⟨d, hd, h⟩ := Option.bind_eq_some_iff.1 h
  have hread : isReviewerApproved y.feedback ≠ none := by
    intro hnone
    simp [reviewDecision, hnone] at hd
  refine ⟨y, hy, asked.2, ?_⟩
  cases d with
  | retry => exact .inl ⟨hd, h⟩
  | approved | exhausted =>
    obtain ⟨rfl, rfl⟩ := Prod.mk.inj (Option.some.inj h)
    exact .inr ⟨hread, rfl, rfl⟩

/-- Without disguises the last feedback reads as the last review's verdict. -/
theorem reads_of_undisguised (hu : Undisguised limit s.retryCount rounds)
    (h : loop limit s rounds = some (after, x)) :
    isReviewerApproved after.reviewerFeedback = some (decide (x.verdict = .approved)) := by
  induction rounds generalizing s with
  | nil => cases h
  | cons r rounds ih =>
    obtain ⟨hr, hrest⟩ := hu
    obtain ⟨y, hy, investigation, ⟨hretry, hloop⟩ | ⟨hread, rfl, rfl⟩⟩ := loop_cons h
    · exact ih (hrest y hy hretry) hloop
    · obtain ⟨b, hb⟩ := Option.ne_none_iff_exists'.1 hread
      rw [hb]
      cases hv : x.verdict with
      | approved =>
        have happ := Reply.approves hy hv
        rw [hb] at happ
        simpa using happ
      | rejected =>
        have hnot : b ≠ true := by
          rintro rfl
          exact hr x hy (Reply.path_of_disguised hy hv hb) hv hb
        simpa using hnot

/-- A disguised rejection ends the loop, and reads as an approval. -/
theorem loop_of_disguised (hread : isReviewerApproved s.reviewerFeedback ≠ none)
    (hu : ¬ Undisguised limit s.retryCount rounds) :
    ∃ after x, loop limit s rounds = some (after, x) ∧ x.verdict = .rejected ∧
      isReviewerApproved after.reviewerFeedback = some true := by
  induction rounds generalizing s with
  | nil => exact absurd trivial hu
  | cons r rounds ih =>
    obtain ⟨asked, hasked⟩ := investigate_isSome (r := r) hread
    by_cases hr : r.reply.Undisguised
    · have hgoes : ∃ y ∈ r.reply.review,
          reviewDecision limit y.feedback (s.retryCount + 1) = some .retry ∧
            ¬ Undisguised limit (s.retryCount + 1) rounds := by
        simpa [Undisguised, hr] using hu
      obtain ⟨y, hy, hretry, hrest⟩ := hgoes
      have hfalse := (reviewDecision_eq_retry.1 hretry).1
      obtain ⟨after, x, hloop, hx⟩ := ih (s := ⟨asked.2, y.feedback, s.retryCount + 1⟩)
        (by simp [hfalse]) hrest
      refine ⟨after, x, ?_, hx⟩
      simp only [loop, hasked, Option.mem_def.1 hy, Option.bind_some, hretry, hloop]
    · have hdisguised : ∃ y ∈ r.reply.review, y.verdict = .rejected ∧
          isReviewerApproved y.feedback = some true := by
        simp only [Reply.Undisguised, not_forall, not_not] at hr
        obtain ⟨y, hy, -, hrej, happ⟩ := hr
        exact ⟨y, hy, hrej, happ⟩
      obtain ⟨y, hy, hrej, happ⟩ := hdisguised
      refine ⟨⟨asked.2, y.feedback, s.retryCount + 1⟩, y, ?_, hrej, happ⟩
      simp only [loop, hasked, Option.mem_def.1 hy, Option.bind_some, reviewDecision, happ,
        Option.map_some, if_true]

end Loop

section

variable {R : Type*} [LinearOrder R] [Zero R] [One R] {g : GraphRun R}

theorem GraphRun.leaves_eq {f : Finding R} {v : Review.Verdict} (h : g.leaves = some (f, v)) :
    ∃ s x, loop g.limit .fresh g.rounds = some (s, x) ∧ x.verdict = v ∧
      synthesise s.reviewerFeedback g.reply g.repair = some (some f) := by
  obtain ⟨⟨s, x⟩, hloop, h⟩ := Option.bind_eq_some_iff.1 h
  obtain ⟨finding, hsyn, h⟩ := Option.bind_eq_some_iff.1 h
  obtain ⟨f', rfl, heq⟩ := Option.map_eq_some_iff.1 h
  obtain ⟨rfl, rfl⟩ := Prod.mk.inj heq
  exact ⟨s, x, hloop, rfl, hsyn⟩

/-- **The finding that leaves the graph is stamped with the last review's own verdict exactly where
no rejection is disguised**, if a finding can leave it at all. -/
theorem GraphRun.honest_iff : (∀ f v, g.leaves = some (f, v) → Honest (some v) f.reviewerApproved) ↔
    (g.Answered → Undisguised g.limit 0 g.rounds) := by
  constructor
  · intro h hans
    by_contra hu
    obtain ⟨s, x, hloop, hrej, happ⟩ :=
      loop_of_disguised (s := .fresh) (by decide) hu
    obtain ⟨f, hf⟩ := Option.isSome_iff_exists.1 hans
    have hleaves : g.leaves = some ({ f with reviewerApproved := some true }, x.verdict) := by
      simp only [GraphRun.leaves, hloop, Option.bind_some, synthesise, happ, Option.map_some, hf]
    have hstamp := (h _ _ hleaves).rejected (congrArg some hrej)
    cases hstamp
  · intro h f v hleaves
    obtain ⟨s, x, hloop, rfl, hsyn⟩ := GraphRun.leaves_eq hleaves
    have hans : g.Answered := by
      obtain ⟨approved, -, hf⟩ := Option.map_eq_some_iff.1 hsyn
      obtain ⟨f', hf', -⟩ := Option.map_eq_some_iff.1 hf
      exact Option.isSome_iff_exists.2 ⟨f', hf'⟩
    have hreads := reads_of_undisguised (s := .fresh) (h hans) hloop
    rw [reviewerApproved_of_synthesise hsyn, hreads, honest_some]
    cases x.verdict <;> simp

end

end ResidentCrm.Dlt
