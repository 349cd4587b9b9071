import Mathlib.Order.Lattice
import Mathlib.Data.List.Basic
import Mathlib.Tactic.Common

/-!
# Floats by their order

A float as far as comparing it goes: a value of a linear order (the infinities are values of it), or
no number. No comparison holds of what is no number, so a minimum taken from the left keeps what it
has when it meets one.
-/

namespace ResidentCrm

/-- A value, or no number. -/
abbrev Num (R : Type*) := Option R

namespace Num

variable {R : Type*} [LinearOrder R] {a b c : Num R}

def Lt (a b : Num R) : Prop := ∃ x ∈ a, ∃ y ∈ b, x < y

def Le (a b : Num R) : Prop := ∃ x ∈ a, ∃ y ∈ b, x ≤ y

instance (a b : Num R) : Decidable (a.Lt b) := inferInstanceAs (Decidable (∃ x ∈ a, ∃ y ∈ b, x < y))

instance (a b : Num R) : Decidable (a.Le b) := inferInstanceAs (Decidable (∃ x ∈ a, ∃ y ∈ b, x ≤ y))

/-- `min(a, b)`: the second only if it is smaller. -/
def least (a b : Num R) : Num R := if b.Lt a then b else a

theorem Le.trans (h : a.Le b) (h' : b.Le c) : a.Le c := by
  obtain ⟨x, hx, y, hy, hxy⟩ := h
  obtain ⟨y', hy', z, hz, hyz⟩ := h'
  obtain rfl : y = y' := Option.some.inj (hy.symm.trans hy')
  exact ⟨x, hx, z, hz, hxy.trans hyz⟩

theorem Le.ne_none (h : a.Le b) : b ≠ none := by
  obtain ⟨x, -, y, hy, -⟩ := h
  rintro rfl
  cases hy

theorem Lt.le (h : a.Lt b) : a.Le b := by
  obtain ⟨x, hx, y, hy, hxy⟩ := h
  exact ⟨x, hx, y, hy, hxy.le⟩

theorem le_refl (ha : a ≠ none) : a.Le a := by
  obtain ⟨x, rfl⟩ := Option.ne_none_iff_exists'.1 ha
  exact ⟨x, rfl, x, rfl, le_rfl⟩

theorem le_of_not_lt (ha : a ≠ none) (hb : b ≠ none) (h : ¬ a.Lt b) : b.Le a := by
  obtain ⟨x, rfl⟩ := Option.ne_none_iff_exists'.1 ha
  obtain ⟨y, rfl⟩ := Option.ne_none_iff_exists'.1 hb
  exact ⟨y, rfl, x, rfl, not_lt.1 fun hlt => h ⟨x, rfl, y, rfl, hlt⟩⟩

theorem least_le_left (ha : a ≠ none) : (least a b).Le a := by
  unfold least
  split
  · next h => exact h.le
  · exact le_refl ha

theorem least_le_right (ha : a ≠ none) (hb : b ≠ none) : (least a b).Le b := by
  unfold least
  split
  · exact le_refl hb
  · next h => exact le_of_not_lt hb ha h

theorem least_none_left : least none b = none := by
  unfold least
  rw [if_neg]
  rintro ⟨x, -, y, hy, -⟩
  cases hy

theorem foldl_least (ha : a ≠ none) (l : List (Num R)) :
    l.foldl least a ≠ none ∧ (l.foldl least a).Le a ∧
      ∀ v ∈ l, v ≠ none → (l.foldl least a).Le v := by
  induction l generalizing a with
  | nil => exact ⟨ha, le_refl ha, fun v hv => by cases hv⟩
  | cons x l ih =>
    have hle : (least a x).Le a := least_le_left ha
    have hne : least a x ≠ none := by
      obtain ⟨y, hy, -⟩ := hle
      exact Option.ne_none_iff_exists'.2 ⟨y, hy⟩
    obtain ⟨hnum, hstart, hall⟩ := ih hne
    refine ⟨hnum, hstart.trans hle, fun v hv hvn => ?_⟩
    rcases List.mem_cons.1 hv with rfl | hv
    · exact hstart.trans (least_le_right ha hvn)
    · exact hall v hv hvn

end Num

end ResidentCrm
