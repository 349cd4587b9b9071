import ResidentCrm.Dlt.CodeCheck
import ResidentCrm.Dlt.Finding

/-!
# The automatic replay gate

`dlt/auto_replay.py`: `decide`, whether a finding qualifies for a replay, with the reason it reports
either way, and the veto of the code check in it.
-/

namespace ResidentCrm.Dlt

structure ReplayConfig (R : Type*) where
  enabled : Bool
  actions : List Action
  threshold : Num R
  allowUnverified : Bool
  codeCheckGatesReplay : Bool
deriving DecidableEq

inductive ReplayReason (R : Type*) where
  | off
  | actionNotListed (action : Action)
  | noConfidence
  | belowThreshold (confidence threshold : Num R)
  | uncorroborated
  | unreviewed
  | noRefId
  | noChange (reason : Reason)
  | notDeployed (required : Option Text) (reason : Reason)
  | cleared
deriving DecidableEq

structure ReplayDecision (R : Type*) where
  shouldReplay : Bool
  reason : ReplayReason R
deriving DecidableEq

def present (refId : Option Text) : Bool := refId.any (· ≠ [])

namespace AutoReplay

section Veto

variable {R : Type*} (cfg : ReplayConfig R)

/-- `_code_check_veto`: two verdicts withhold, where the check may gate at all. -/
def codeCheckVeto (codeCheck : Option CodeCheck) : Option (ReplayReason R) :=
  match codeCheck with
  | none => none
  | some check =>
    if cfg.codeCheckGatesReplay = false then none
    else match check.verdict with
      | .noChange => some (.noChange check.reason)
      | .notDeployed => some (.notDeployed check.evidence.requiredVersion check.reason)
      | .fixDeployed | .unknown => none

variable {cfg}

theorem codeCheckVeto_none : codeCheckVeto cfg none = none := rfl

theorem codeCheckVeto_eq_none {check : CodeCheck} :
    codeCheckVeto cfg (some check) = none ↔ (cfg.codeCheckGatesReplay = true →
      check.verdict ≠ .noChange ∧ check.verdict ≠ .notDeployed) := by
  unfold codeCheckVeto
  dsimp only
  cases cfg.codeCheckGatesReplay with
  | false => simp
  | true => cases check.verdict <;> simp

end Veto

variable {R : Type*} [LinearOrder R] (cfg : ReplayConfig R)

def decide (f : Finding R) (refId : Option Text) (codeCheck : Option CodeCheck) :
    ReplayDecision R :=
  if cfg.enabled = false then ⟨false, .off⟩
  else if f.action ∉ cfg.actions then ⟨false, .actionNotListed f.action⟩
  else match f.confidence with
    | none => ⟨false, .noConfidence⟩
    | some confidence =>
      if confidence.Lt cfg.threshold then ⟨false, .belowThreshold confidence cfg.threshold⟩
      else if unverifiableLabel ∈ f.ceilingsApplied ∧ cfg.allowUnverified = false then
        ⟨false, .uncorroborated⟩
      else if unreviewedLabel ∈ f.ceilingsApplied then ⟨false, .unreviewed⟩
      else if present refId = false then ⟨false, .noRefId⟩
      else match codeCheckVeto cfg codeCheck with
        | some reason => ⟨false, reason⟩
        | none => ⟨true, .cleared⟩

/-- What `decide` asks of a finding, apart from the veto. -/
structure Qualifies (f : Finding R) (refId : Option Text) : Prop where
  enabled : cfg.enabled = true
  action : f.action ∈ cfg.actions
  confidence : ∃ x ∈ f.confidence, ¬ x.Lt cfg.threshold
  corroborated : unverifiableLabel ∈ f.ceilingsApplied → cfg.allowUnverified = true
  reviewed : unreviewedLabel ∉ f.ceilingsApplied
  refId : present refId = true

variable {cfg}

/-- **The gate**: a replay is decided on exactly where the finding qualifies and nothing vetoes. -/
theorem decide_iff {f : Finding R} {refId : Option Text} {codeCheck : Option CodeCheck} :
    (decide cfg f refId codeCheck).shouldReplay = true ↔
      Qualifies cfg f refId ∧ codeCheckVeto cfg codeCheck = none := by
  constructor
  · intro h
    unfold decide at h
    split at h
    · cases h
    next hen =>
    split at h
    · cases h
    next hact =>
    split at h
    · cases h
    next x hx =>
    split at h
    · cases h
    next hthr =>
    split at h
    · cases h
    next hunv =>
    split at h
    · cases h
    next hrev =>
    split at h
    · cases h
    next href =>
    split at h
    · cases h
    next hveto =>
    refine ⟨⟨by simpa using hen, by simpa using hact, ⟨x, hx, hthr⟩, fun hl => ?_, hrev,
      by simpa using href⟩, hveto⟩
    by_contra hallow
    exact hunv ⟨hl, by simpa using hallow⟩
  · rintro ⟨⟨hen, hact, ⟨x, hx, hthr⟩, hunv, hrev, href⟩, hveto⟩
    have hunv' : ¬ (unverifiableLabel ∈ f.ceilingsApplied ∧ cfg.allowUnverified = false) := by
      rintro ⟨hl, hallow⟩
      rw [hunv hl] at hallow
      cases hallow
    simp only [decide, hen, hact, Option.mem_def.1 hx, hthr, hunv', hrev, href, hveto,
      Bool.true_eq_false, not_true_eq_false, if_false]

end AutoReplay

end ResidentCrm.Dlt
