import Mathlib.Data.List.Nodup
import Mathlib.Tactic.Common

/-!
# One holder in a period

What a claim with abandonment is for: time is cut into periods by the abandonments, and whoever
takes the claim does so in a period in which nobody has taken it.
-/

namespace ResidentCrm

/-- The running period, and the periods of the takes so far, the latest first. -/
structure Tenure where
  period : ℕ
  takes : List ℕ

namespace Tenure

/-- What may happen: nothing, an abandonment, or the first take of the period. -/
inductive Moves (x : Tenure) : Tenure → Prop
  | rests : Moves x x
  | abandoned : Moves x { x with period := x.period + 1 }
  | taken (h : ∀ p ∈ x.takes, p < x.period) : Moves x { x with takes := x.period :: x.takes }

/-- No two takes fall in one period, and none in a period to come. -/
def OneEach (x : Tenure) : Prop := x.takes.Nodup ∧ ∀ p ∈ x.takes, p ≤ x.period

theorem OneEach.moves {x y : Tenure} (h : x.OneEach) (hxy : x.Moves y) : y.OneEach := by
  obtain ⟨hnodup, hle⟩ := h
  cases hxy with
  | rests => exact ⟨hnodup, hle⟩
  | abandoned => exact ⟨hnodup, fun p hp => Nat.le_succ_of_le (hle p hp)⟩
  | taken hlt =>
    refine ⟨List.nodup_cons.2 ⟨fun hp => Nat.lt_irrefl _ (hlt _ hp), hnodup⟩, fun p hp => ?_⟩
    rcases List.mem_cons.1 hp with rfl | hp
    · exact Nat.le_refl _
    · exact hle p hp

end Tenure

end ResidentCrm
