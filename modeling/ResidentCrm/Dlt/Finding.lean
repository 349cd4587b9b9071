import ResidentCrm.Lib.Floats
import ResidentCrm.Lib.Text

/-!
# Findings and their confidence ceilings

`models/dlt_synthesis.py`: the finding a case is given and `apply_dlt_confidence_policy`, which caps
its confidence at what the evidence supports and names every ceiling the case triggered. Numbers are
floats (`Num`); `mul` is their multiplication, of which nothing is used.
-/

namespace ResidentCrm.Dlt

/-- `DLT_ACTIONS`. -/
inductive Action where
  | needsManualReview
  | routeToDev
  | redriveAfterRecovery
  | dataFixRequired
  | noAction
deriving DecidableEq, Repr

inductive FailureClass where
  | business
  | codeDefect
  | technical
  | unknown
deriving DecidableEq, Repr

inductive Corroboration where
  | corroborated
  | unverifiable
  | contradicted
  | partially
deriving DecidableEq, Repr

def Corroboration.isDiscrepancy (c : Corroboration) : Bool := c ∈ [.contradicted, .partially]

/-- What of a `DltFinding` decides anything. -/
structure Finding (R : Type*) where
  action : Action
  confidence : Option (Num R) := none
  ceilingsApplied : List Text := []
  reviewerApproved : Option Bool := none
  discrepancy : Option Text := none
deriving DecidableEq

/-- What the contract refuses of a confidence: below 0, or above 1. No number is neither. -/
def Finding.Valid {R : Type*} [LinearOrder R] [Zero R] [One R] (f : Finding R) : Prop :=
  ∀ c ∈ f.confidence, ¬ c.Lt (some 0) ∧ ¬ Num.Lt (some 1) c

instance {R : Type*} [LinearOrder R] [Zero R] [One R] (f : Finding R) : Decidable f.Valid :=
  inferInstanceAs (Decidable (∀ c ∈ f.confidence, _ ∧ _))

structure Ceilings (R : Type*) where
  classB : Num R
  unverified : Num R
  logsUnavailable : Num R
  logsSilent : Num R
  contradicted : Num R
  registryMiss : Num R
  unreviewed : Num R
  evidenceGap : Num R
  reuseDecay : Num R
deriving DecidableEq

structure Occurrence where
  failureClass : FailureClass
  corroboration : Corroboration
  registryHit : Bool
  reused : Bool
  /-- The logs carry the banner of an evidence gap. -/
  gapped : Bool
  couldNotLook : Option Bool
deriving DecidableEq, Repr

def unverifiableLabel : Text := "unverifiable".toList

def unreviewedLabel : Text := "unreviewed".toList

def contradictedLabel : Text := "contradicted".toList

/-- Class B and U are routed, never diagnosed. -/
def FailureClass.routed (c : FailureClass) : Bool := c ∈ [.codeDefect, .unknown]

def FailureClass.label (c : FailureClass) : Text :=
  match c with
  | .business => "class_a".toList
  | .codeDefect => "class_b".toList
  | .technical => "class_c".toList
  | .unknown => "class_u".toList

section

variable {R : Type*}

def capIf (p : Prop) [Decidable p] (value : Num R) (labels : List Text) :
    List (Num R × List Text) :=
  if p then [(value, labels)] else []

def corroborationCaps (c : Ceilings R) : Corroboration → Option Bool → List (Num R × List Text)
  | .unverifiable, some true =>
    [(c.logsUnavailable, [unverifiableLabel, "logs_unavailable".toList])]
  | .unverifiable, some false => [(c.logsSilent, [unverifiableLabel, "logs_silent".toList])]
  | .unverifiable, none => [(c.unverified, [unverifiableLabel])]
  | .contradicted, _ => [(c.contradicted, [contradictedLabel])]
  | .corroborated, _ | .partially, _ => []

/-- The ceilings a case triggers, in the order they are taken, with their labels. -/
def caps (c : Ceilings R) (o : Occurrence) (reviewerApproved : Option Bool) :
    List (Num R × List Text) :=
  capIf (o.failureClass.routed = true) c.classB [o.failureClass.label] ++
    corroborationCaps c o.corroboration o.couldNotLook ++
    capIf (o.failureClass = .business ∧ o.registryHit = false) c.registryMiss
      ["registry_miss".toList] ++
    capIf (reviewerApproved = some false) c.unreviewed [unreviewedLabel] ++
    capIf (o.gapped = true) c.evidenceGap ["evidence_gap".toList]

theorem mem_capIf {p : Prop} [Decidable p] {value v : Num R} {labels : List Text} :
    v ∈ (capIf p value labels).map Prod.fst ↔ p ∧ v = value := by
  unfold capIf
  split <;> simp [*]

theorem mem_corroborationCaps {c : Ceilings R} {o : Corroboration} {couldNotLook : Option Bool}
    {v : Num R} : v ∈ (corroborationCaps c o couldNotLook).map Prod.fst ↔
      (o = .unverifiable ∧ couldNotLook = some true ∧ v = c.logsUnavailable) ∨
      (o = .unverifiable ∧ couldNotLook = some false ∧ v = c.logsSilent) ∨
      (o = .unverifiable ∧ couldNotLook = none ∧ v = c.unverified) ∨
      (o = .contradicted ∧ v = c.contradicted) := by
  cases o with
  | unverifiable => rcases couldNotLook with - | - | - <;> simp [corroborationCaps]
  | contradicted | corroborated | partially => simp [corroborationCaps]

variable [LinearOrder R]

/-- `x` is at most every ceiling the case triggers. -/
structure Under (c : Ceilings R) (o : Occurrence) (reviewerApproved : Option Bool) (x : Num R) :
    Prop where
  routed : o.failureClass.routed = true → x.Le c.classB
  unavailable : o.corroboration = .unverifiable → o.couldNotLook = some true →
    x.Le c.logsUnavailable
  silent : o.corroboration = .unverifiable → o.couldNotLook = some false → x.Le c.logsSilent
  unverified : o.corroboration = .unverifiable → o.couldNotLook = none → x.Le c.unverified
  contradicted : o.corroboration = .contradicted → x.Le c.contradicted
  registryMiss : o.failureClass = .business → o.registryHit = false → x.Le c.registryMiss
  unreviewed : reviewerApproved = some false → x.Le c.unreviewed
  gapped : o.gapped = true → x.Le c.evidenceGap

theorem under_iff {c : Ceilings R} {o : Occurrence} {approved : Option Bool} {x : Num R} :
    Under c o approved x ↔ ∀ v ∈ (caps c o approved).map Prod.fst, x.Le v := by
  simp only [caps, List.map_append, List.mem_append, mem_capIf, mem_corroborationCaps]
  constructor
  · rintro h v ((((⟨hc, rfl⟩ | hv) | ⟨⟨hc, hr⟩, rfl⟩) | ⟨ha, rfl⟩) | ⟨hg, rfl⟩)
    · exact h.routed hc
    · rcases hv with ⟨ho, hl, rfl⟩ | ⟨ho, hl, rfl⟩ | ⟨ho, hl, rfl⟩ | ⟨ho, rfl⟩
      · exact h.unavailable ho hl
      · exact h.silent ho hl
      · exact h.unverified ho hl
      · exact h.contradicted ho
    · exact h.registryMiss hc hr
    · exact h.unreviewed ha
    · exact h.gapped hg
  · intro h
    exact {
      routed := fun hc => h _ (.inl (.inl (.inl (.inl ⟨hc, rfl⟩))))
      unavailable := fun ho hl => h _ (.inl (.inl (.inl (.inr (.inl ⟨ho, hl, rfl⟩)))))
      silent := fun ho hl => h _ (.inl (.inl (.inl (.inr (.inr (.inl ⟨ho, hl, rfl⟩))))))
      unverified := fun ho hl => h _ (.inl (.inl (.inl (.inr (.inr (.inr (.inl ⟨ho, hl, rfl⟩)))))))
      contradicted := fun ho => h _ (.inl (.inl (.inl (.inr (.inr (.inr (.inr ⟨ho, rfl⟩)))))))
      registryMiss := fun hc hr => h _ (.inl (.inl (.inr ⟨⟨hc, hr⟩, rfl⟩)))
      unreviewed := fun ha => h _ (.inl (.inr ⟨ha, rfl⟩))
      gapped := fun hg => h _ (.inr ⟨hg, rfl⟩) }

variable [One R] (mul : Num R → Num R → Num R)

/-- The confidence before it is capped: a reused finding's decays. -/
def decayed (c : Ceilings R) (o : Occurrence) (f : Finding R) : Option (Num R) :=
  f.confidence.map fun x => if o.reused then mul x c.reuseDecay else x

/-- `apply_dlt_confidence_policy`. -/
def applyPolicy (c : Ceilings R) (o : Occurrence) (f : Finding R) : Finding R :=
  let applied := caps c o f.reviewerApproved
  let ceiling := (applied.map Prod.fst).foldl Num.least (some 1)
  { f with
    confidence := (decayed mul c o f).map (Num.least · ceiling)
    ceilingsApplied := applied.flatMap Prod.snd ++
      (if f.confidence.isSome ∧ o.reused then ["reuse_decay".toList] else [])
    discrepancy := if o.corroboration.isDiscrepancy then f.discrepancy else none
    action :=
      if o.failureClass.routed ∧ f.action ∉ [Action.needsManualReview, .routeToDev] then
        .needsManualReview
      else f.action }

/-- The numbers a case's confidence is made of are numbers. -/
def Numbered (c : Ceilings R) (o : Occurrence) (f : Finding R) : Prop :=
  (∀ v ∈ (caps c o f.reviewerApproved).map Prod.fst, v ≠ none) ∧
    ∀ x ∈ decayed mul c o f, x ≠ none

variable {mul}

/-- **The policy's confidence is under every ceiling the case triggers**, where numbers make it. -/
theorem under_applyPolicy_iff {c : Ceilings R} {o : Occurrence} {f : Finding R} {x : Num R}
    (hx : x ∈ (applyPolicy mul c o f).confidence) :
    x ≠ none ∧ Under c o f.reviewerApproved x ↔ Numbered mul c o f := by
  obtain ⟨y, hy, rfl⟩ := Option.map_eq_some_iff.1 hx
  have hone : (some 1 : Num R) ≠ none := by simp
  obtain ⟨hnum, -, hall⟩ := Num.foldl_least hone ((caps c o f.reviewerApproved).map Prod.fst)
  rw [under_iff]
  constructor
  · rintro ⟨hne, hle⟩
    refine ⟨fun v hv => (hle v hv).ne_none, fun z hz => ?_⟩
    obtain rfl : y = z := Option.some.inj (hy.symm.trans hz)
    rintro rfl
    exact hne Num.least_none_left
  · rintro ⟨hceil, hdec⟩
    have hyn : y ≠ none := hdec y hy
    refine ⟨?_, fun v hv => ?_⟩
    · obtain ⟨z, hz, -⟩ := Num.least_le_left (b := ((caps c o f.reviewerApproved).map
        Prod.fst).foldl Num.least (some 1)) hyn
      exact Option.ne_none_iff_exists'.2 ⟨z, hz⟩
    · exact (Num.least_le_right hyn hnum).trans (hall v hv (hceil v hv))

theorem unverifiable_mem {c : Ceilings R} {o : Occurrence} {f : Finding R}
    (h : o.corroboration = .unverifiable) :
    unverifiableLabel ∈ (applyPolicy mul c o f).ceilingsApplied := by
  have hcap : unverifiableLabel ∈
      (corroborationCaps c o.corroboration o.couldNotLook).flatMap Prod.snd := by
    rw [h]
    rcases o.couldNotLook with - | - | - <;> simp [corroborationCaps]
  simp only [applyPolicy, caps, List.flatMap_append, List.mem_append, hcap, or_true, true_or]

theorem unreviewed_mem {c : Ceilings R} {o : Occurrence} {f : Finding R}
    (h : f.reviewerApproved = some false) :
    unreviewedLabel ∈ (applyPolicy mul c o f).ceilingsApplied := by
  have hcap : unreviewedLabel ∈ (capIf (f.reviewerApproved = some false) c.unreviewed
      [unreviewedLabel]).flatMap Prod.snd := by
    simp [capIf, h]
  simp only [applyPolicy, caps, List.flatMap_append, List.mem_append, hcap, or_true, true_or]

end

end ResidentCrm.Dlt
