import ResidentCrm.Review.Graph
import Mathlib.Data.List.Chain

/-!
# Which replies the review gate honours

A verdict travels as the feedback string: `check_approval`, the retry test and `review_summary` read
it back from there. `honours_iff_fair`: the run of a packet honours every verdict exactly when no
rejection taken from the harness is worded as an approval, and none that goes back to the
Investigator is empty. `worded_as_approval` is a run of the first kind.
-/

namespace ResidentCrm

namespace Review

/-! ## What is promised -/

/-- The Reviewer's own verdict in a pass. -/
def Turn.verdict (t : Turn) : Option Verdict := t.review.map Reviewed.verdict

/-- `u` is a retry that receives the analysis and the feedback of `t`. -/
def Turn.Retries (u t : Turn) : Prop :=
  u.asked.retry = true ∧ t.analysis <:+: u.asked.prompt ∧
    ∀ x ∈ t.review, x.feedback.shown <:+: u.asked.prompt

/-- Synthesis follows an approval. -/
def Turn.Earned (t : Turn) : Prop := t.next = some .synthesis → t.verdict = some .approved

/-- A pass that follows a rejection retries it. -/
def Turn.FollowedBy (t u : Turn) : Prop := t.verdict = some .rejected → u.Retries t

/-- The review gate honours every verdict of a run: of its passes and of the state it leaves. -/
structure Honours (limit : ℤ) (run : List Turn × GraphState) : Prop where
  earned : ∀ t ∈ run.1, t.Earned
  bound : (run.1.length : ℤ) ≤ max 1 limit
  retries : run.1.IsChain Turn.FollowedBy
  /-- Unless a pass raised, the summary counts the reviews and their rejections. -/
  summary : (∀ t ∈ run.1, t.next ≠ none) →
    (reviewSummary run.2).map (fun m => (m.reviews, m.reviewerRejections)) =
      some (run.1.length, run.1.countP (·.verdict = some .rejected))

/-! ## When it is kept -/

/-- The rejection of a round, if it is one, does not read as an approval. -/
def Round.Undisguised (r : Round) : Prop :=
  ∀ x ∈ r.reply.review, x.verdict = .rejected → isReviewerApproved x.feedback ≠ some true

/-- The feedback of a round does not approve. -/
def Round.SentBack (r : Round) : Prop :=
  ∃ x ∈ r.reply.review, isReviewerApproved x.feedback = some false

/-- The feedback of a round says something. -/
def Round.Worded (r : Round) : Prop := ∀ x ∈ r.reply.review, x.feedback.truthy = true

/-- Of the rounds whose review takes place, after `n` reviews: none disguises a rejection, and one
that is sent back to a further round is worded. -/
def Fair (limit : ℤ) : ℕ → List Round → Prop
  | _, [] => True
  | n, r :: rounds =>
    r.Undisguised ∧
      (r.SentBack → (n + 1 : ℤ) < limit →
        (rounds ≠ [] → r.Worded) ∧ Fair limit (n + 1) rounds)

section Run

variable {limit : ℤ}

theorem next_investigator_iff {s : GraphState} {r : Round} :
    (turn limit s r).next = some .investigator ↔ r.SentBack ∧ (s.retryCount + 1 : ℤ) < limit := by
  constructor
  · intro h
    obtain ⟨x, hx, hn⟩ := turn_next_eq h
    obtain ⟨hf, hlt⟩ := reviewDecision_eq_investigator.1 hn
    exact ⟨⟨x, hx, hf⟩, by exact_mod_cast hlt⟩
  · rintro ⟨⟨x, hx, hf⟩, hlt⟩
    rw [(turn_of_review limit s hx).1]
    exact reviewDecision_eq_investigator.2 ⟨hf, by exact_mod_cast hlt⟩

theorem earned_iff {s : GraphState} {r : Round} : (turn limit s r).Earned ↔ r.Undisguised := by
  unfold Turn.Earned Turn.verdict
  rw [turn_review]
  constructor
  · intro h x hx hrej hap
    have hnext : (turn limit s r).next = some .synthesis := by
      rw [(turn_of_review limit s hx).1]
      exact reviewDecision_eq_synthesis.2 hap
    have happ := h hnext
    rw [Option.mem_def.1 hx, Option.map_some, hrej] at happ
    cases happ
  · intro h hn
    obtain ⟨x, hx, hd⟩ := turn_next_eq hn
    have hap := reviewDecision_eq_synthesis.1 hd
    rw [hx, Option.map_some]
    cases hv : x.verdict with
    | approved => rfl
    | rejected => exact absurd hap (h x hx hv)

/-- The pass after one that goes back is a retry of it exactly when the feedback says something. -/
theorem followedBy_iff {s : GraphState} {r r' : Round}
    (h : (turn limit s r).next = some .investigator) :
    (turn limit s r).FollowedBy (turn limit (turn limit s r).after r') ↔ r.Worded := by
  obtain ⟨x, hx, hd⟩ := turn_next_eq h
  obtain ⟨hf, -⟩ := reviewDecision_eq_investigator.1 hd
  have hrej : x.verdict = .rejected := by
    cases hv : x.verdict with
    | rejected => rfl
    | approved => simp [approves_of_approved hx hv] at hf
  have hafter := (turn_of_review limit s hx).2.1
  have hworded : r.Worded ↔ x.feedback.truthy = true := by
    refine ⟨fun h => h x hx, fun h y hy => ?_⟩
    obtain rfl : x = y := Option.some.inj (hx.symm.trans hy)
    exact h
  rw [hworded]
  unfold Turn.FollowedBy Turn.Retries Turn.verdict
  rw [turn_review, hx, Option.map_some, hrej, turn_asked]
  constructor
  · intro h
    obtain ⟨hretry, -⟩ := h rfl
    rwa [investigate_retry, hafter] at hretry
  · intro ht _
    rw [investigate_of_truthy (by rwa [hafter]), turn_investigation, hafter]
    obtain ⟨hprev, hfeed⟩ := infix_retryPrompt r' (turn limit s r).analysis x.feedback
    refine ⟨rfl, hprev, fun y hy => ?_⟩
    obtain rfl : x = y := Option.some.inj hy
    exact hfeed

theorem earned_retries_iff (limit : ℤ) (s : GraphState) (rounds : List Round) :
    (∀ t ∈ turns limit s rounds, t.Earned) ∧ (turns limit s rounds).IsChain Turn.FollowedBy ↔
      Fair limit s.retryCount rounds := by
  induction rounds generalizing s with
  | nil => simp [turns, Fair]
  | cons r rounds ih =>
    simp only [turns, Fair, List.mem_cons, forall_eq_or_imp, List.isChain_cons, earned_iff]
    by_cases hn : (turn limit s r).next = some .investigator
    · obtain ⟨hback, hlt⟩ := next_investigator_iff.1 hn
      have hcount : (turn limit s r).after.retryCount = s.retryCount + 1 := by
        obtain ⟨x, hx, -⟩ := turn_next_eq hn
        exact (turn_of_review limit s hx).2.2
      -- The pass that follows, if a round is left, is the first of the rest.
      have hhead : (∀ u ∈ (turns limit (turn limit s r).after rounds).head?,
          (turn limit s r).FollowedBy u) ↔ (rounds ≠ [] → r.Worded) := by
        cases rounds with
        | nil => simp [turns]
        | cons r' rounds => simp [turns, followedBy_iff hn]
      have ih := ih (turn limit s r).after
      rw [hcount] at ih
      simp only [hn, if_true, hhead, hback, hlt, true_implies, ← ih]
      tauto
    · have hnot : ¬ (r.SentBack ∧ (s.retryCount + 1 : ℤ) < limit) :=
        fun h => hn (next_investigator_iff.2 h)
      have hrest : r.SentBack → (s.retryCount + 1 : ℤ) < limit →
          (rounds ≠ [] → r.Worded) ∧ Fair limit (s.retryCount + 1) rounds :=
        fun h₁ h₂ => absurd ⟨h₁, h₂⟩ hnot
      simpa [hn] using fun _ => hrest

theorem length_turns_le (limit : ℤ) (s : GraphState) (rounds : List Round) :
    (s.retryCount + (turns limit s rounds).length : ℤ) ≤ max ((s.retryCount : ℤ) + 1) limit := by
  induction rounds generalizing s with
  | nil =>
    simp only [turns, List.length_nil]
    omega
  | cons r rounds ih =>
    simp only [turns]
    split
    · next hn =>
      have hlt := (next_investigator_iff.1 hn).2
      obtain ⟨x, hx, -⟩ := turn_next_eq hn
      have ih := ih (turn limit s r).after
      rw [(turn_of_review limit s hx).2.2] at ih
      simp only [List.length_cons]
      push_cast at ih ⊢
      omega
    · simp only [List.length_cons, List.length_nil]
      push_cast
      omega

/-! ## The summary -/

theorem final_cons (s : GraphState) (t : Turn) (ts : List Turn) :
    final s (t :: ts) = final t.after ts := rfl

theorem final_resolutionSource (limit : ℤ) (s : GraphState) (rounds : List Round) :
    (final s (turns limit s rounds)).resolutionSource = s.resolutionSource := by
  induction rounds generalizing s with
  | nil => rfl
  | cons r rounds ih =>
    rw [turns, final_cons]
    split
    · rw [ih, turn_resolutionSource]
    · exact turn_resolutionSource

/-- What the state at the end of a run that did not raise records: the number of reviews, and in the
feedback whether the last one approved. -/
theorem final_turns (s : GraphState) {rounds : List Round} (hne : rounds ≠ [])
    (hok : ∀ t ∈ turns limit s rounds, t.next ≠ none)
    (hearned : ∀ t ∈ turns limit s rounds, t.Earned) :
    (final s (turns limit s rounds)).retryCount =
        s.retryCount + (turns limit s rounds).length ∧
      ∃ b, isReviewerApproved (final s (turns limit s rounds)).reviewerFeedback = some b ∧
        (turns limit s rounds).countP (·.verdict = some .rejected) + b.toNat =
          (turns limit s rounds).length := by
  induction rounds generalizing s with
  | nil => exact absurd rfl hne
  | cons r rounds ih =>
    simp only [turns] at hok hearned ⊢
    obtain ⟨n, hn⟩ := Option.ne_none_iff_exists'.1 (hok _ List.mem_cons_self)
    obtain ⟨x, hx, hd⟩ := turn_next_eq hn
    obtain ⟨-, hfeed, hcount⟩ := turn_of_review limit s hx
    have hverdict : (turn limit s r).verdict = some x.verdict := by
      rw [Turn.verdict, turn_review, hx, Option.map_some]
    have hdec : ∃ b, isReviewerApproved x.feedback = some b := by
      refine Option.ne_none_iff_exists'.1 fun h => ?_
      rw [reviewDecision_eq_none.2 h] at hd
      cases hd
    obtain ⟨b, hb⟩ := hdec
    -- The verdict is what the feedback says.
    have hval : x.verdict = if b then .approved else .rejected := by
      cases b with
      | true =>
        have hsyn : (turn limit s r).next = some .synthesis := by
          rw [(turn_of_review limit s hx).1]
          exact reviewDecision_eq_synthesis.2 hb
        have := hearned _ List.mem_cons_self hsyn
        exact Option.some.inj (hverdict.symm.trans this)
      | false =>
        cases hv : x.verdict with
        | rejected => rfl
        | approved => simp [approves_of_approved hx hv] at hb
    rw [final_cons]
    by_cases hback : (turn limit s r).next = some .investigator ∧ rounds ≠ []
    · obtain ⟨hinv, hrounds⟩ := hback
      simp only [hinv, if_true] at hok hearned ⊢
      obtain ⟨ihc, b', hb', ihn⟩ := ih (turn limit s r).after hrounds
        (fun t ht => hok t (List.mem_cons_of_mem _ ht))
        (fun t ht => hearned t (List.mem_cons_of_mem _ ht))
      have hrej : x.verdict = .rejected := by
        obtain ⟨y, hy, hdy⟩ := turn_next_eq hinv
        obtain rfl : x = y := Option.some.inj (hx.symm.trans hy)
        have hbf := (reviewDecision_eq_investigator.1 hdy).1
        obtain rfl : b = false := Option.some.inj (hb.symm.trans hbf)
        exact hval
      refine ⟨?_, b', hb', ?_⟩
      · rw [ihc, hcount, List.length_cons]
        omega
      · rw [List.countP_cons_of_pos (by simp [hverdict, hrej]), List.length_cons]
        omega
    · have hrest : (if (turn limit s r).next = some .investigator then
          turns limit (turn limit s r).after rounds else []) = [] := by
        split
        · next hinv =>
          obtain rfl : rounds = [] := by
            by_contra h
            exact hback ⟨hinv, h⟩
          rfl
        · rfl
      rw [hrest]
      refine ⟨hcount, b, by rw [← hb, ← hfeed]; rfl, ?_⟩
      cases b <;> simp [hverdict, hval]

theorem summary_turns {rounds : List Round} (hok : ∀ t ∈ turns limit fresh rounds, t.next ≠ none)
    (hearned : ∀ t ∈ turns limit fresh rounds, t.Earned) :
    (reviewSummary (final fresh (turns limit fresh rounds))).map
        (fun m => (m.reviews, m.reviewerRejections)) =
      some ((turns limit fresh rounds).length,
        (turns limit fresh rounds).countP (·.verdict = some .rejected)) := by
  cases rounds with
  | nil => rfl
  | cons r rounds =>
    obtain ⟨hcount, b, hb, hn⟩ := final_turns fresh (List.cons_ne_nil r rounds) hok hearned
    have hsource := final_resolutionSource limit fresh (r :: rounds)
    have hagent : "runbook:".toList.isPrefixOf fresh.resolutionSource = false := by decide
    have hpos : (turns limit fresh (r :: rounds)).length ≠ 0 := by simp [turns]
    have hzero : fresh.retryCount = 0 := rfl
    rw [hzero, Nat.zero_add] at hcount
    simp only [reviewSummary, hsource, hagent, Bool.false_eq_true, if_false, hcount, hpos, hb,
      Option.map_some, Option.some.injEq, Prod.mk.injEq, true_and]
    cases b with
    | true =>
      simp only [if_true, Bool.toNat_true] at hn ⊢
      exact (Nat.eq_sub_of_add_eq hn).symm
    | false =>
      simp only [Bool.false_eq_true, if_false, Bool.toNat_false] at hn ⊢
      omega

end Run

/-- **The gate honours every verdict of a run exactly when its replies are fair.** -/
theorem honours_iff_fair (limit : ℤ) (runbook : Option Text) (rounds : List Round) :
    Honours limit (analyze limit runbook rounds) ↔ (runbook = none → Fair limit 0 rounds) := by
  cases runbook with
  | some source =>
    refine iff_of_true ⟨?_, ?_, ?_, fun _ => ?_⟩ (fun h => by cases h)
    · intro t ht
      cases ht
    · simp only [analyze, List.length_nil]
      omega
    · exact .nil
    · simp [analyze, reviewSummary]
  | none =>
    have hiff := earned_retries_iff limit fresh rounds
    constructor
    · intro h _
      exact hiff.1 ⟨h.earned, h.retries⟩
    · intro h
      obtain ⟨hearned, hretries⟩ := hiff.2 (h rfl)
      refine ⟨hearned, ?_, hretries, fun hok => summary_turns hok hearned⟩
      have hle := length_turns_le limit fresh rounds
      have hzero : fresh.retryCount = 0 := rfl
      rw [hzero] at hle
      simpa [analyze] using hle

/-! ## The two kinds of reply that break it -/

def plainRound (reply : Reply) : Round where
  docs := false
  service := []
  sections := []
  evidence := "evidence".toList
  harness := none
  analysis := "analysis".toList
  reply := reply

def jsonReply (verdict feedback : String) : Reply where
  harness := some
    { verdict := some (.text verdict.toList)
      feedback := some (.text feedback.toList)
      ruleRaises := false }
  content := .blank

/-- A rejection whose feedback opens with the other word is sent to Synthesis. -/
theorem worded_as_approval : ¬ Honours 3 (analyze 3 none
    [plainRound (jsonReply "REJECTED" "Approved. Except that the rule does not apply.")]) := by
  intro h
  have hsent : ∃ t ∈ (analyze 3 none
      [plainRound (jsonReply "REJECTED" "Approved. Except that the rule does not apply.")]).1,
      t.next = some .synthesis ∧ t.verdict = some .rejected := by decide
  obtain ⟨t, ht, hnext, hrej⟩ := hsent
  have happ := h.earned t ht hnext
  rw [hrej] at happ
  cases happ

end Review

end ResidentCrm
