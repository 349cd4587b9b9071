import Mathlib.Algebra.Order.Group.Defs
import Mathlib.Algebra.Order.Group.Unbundled.Basic
import Mathlib.Data.List.Basic
import Mathlib.Tactic.Common

/-!
# A sliding window

Times one after another, each taken only where fewer than `limit` of those before it are recent. No
stretch of time of the length of the window then has more than `limit` of them, wherever it starts
(`Rationed.length_from_le`, `Rationed.length_after_le`).
-/

namespace ResidentCrm

variable {T : Type*} [AddCommGroup T] [LinearOrder T]

/-- The times less than the window ago. -/
def recent (window now : T) (l : List T) : List T := l.filter (now - · < window)

@[simp] theorem recent_nil (window now : T) : recent window now [] = [] := rfl

theorem recent_append (window now : T) (l l' : List T) :
    recent window now (l ++ l') = recent window now l ++ recent window now l' :=
  List.filter_append _ _

/-- Each time was taken while fewer than `limit` were recent. -/
inductive Rationed (window : T) (limit : ℤ) : List T → Prop
  | nil : Rationed window limit []
  | concat {l : List T} {t : T} (h : Rationed window limit l)
      (hroom : (recent window t l).length < limit) : Rationed window limit (l ++ [t])

variable {window : T} {limit : ℤ} {l : List T}

/-- Of times that are all less than a window apart there are `limit` at most. -/
theorem Rationed.length_filter_le (h : Rationed window limit l) (p : T → Prop) [DecidablePred p]
    (hp : ∀ s t, p s → p t → t - s < window) : (l.filter p).length ≤ max limit 0 := by
  induction h with
  | nil => exact le_max_right limit 0
  | @concat l t h hroom ih =>
    by_cases ht : p t
    · have hsub : ((l.filter p).length : ℤ) ≤ (recent window t l).length := by
        refine Int.ofNat_le.2 (List.Sublist.length_le (List.monotone_filter_right l fun s hs => ?_))
        exact decide_eq_true (hp s t (of_decide_eq_true hs) ht)
      rw [List.filter_append, List.filter_singleton, decide_eq_true ht, cond_true,
        List.length_append, List.length_singleton]
      omega
    · rw [List.filter_append, List.filter_singleton, decide_eq_false ht, cond_false,
        List.append_nil]
      exact ih

variable [IsOrderedAddMonoid T]

theorem Rationed.length_from_le (h : Rationed window limit l) (start : T) :
    (l.filter fun t => start ≤ t ∧ t < start + window).length ≤ max limit 0 :=
  h.length_filter_le _ fun _ t hs ht =>
    lt_of_le_of_lt (sub_le_sub_left hs.1 t) (sub_lt_iff_lt_add'.2 ht.2)

theorem Rationed.length_after_le (h : Rationed window limit l) (start : T) :
    (l.filter fun t => start < t ∧ t ≤ start + window).length ≤ max limit 0 :=
  h.length_filter_le _ fun _ t hs ht =>
    lt_of_lt_of_le (sub_lt_sub_left hs.1 t) (sub_le_iff_le_add'.2 ht.2)

/-- What is not recent now is not recent later. -/
theorem recent_recent {now later : T} (h : now ≤ later) (l : List T) :
    recent window later (recent window now l) = recent window later l := by
  rw [recent, recent, List.filter_filter]
  refine List.filter_congr fun t _ => ?_
  rw [Bool.and_eq_left_iff_imp, decide_eq_true_iff, decide_eq_true_iff]
  exact lt_of_le_of_lt (sub_le_sub_right h t)

theorem recent_eq_nil {now later : T} (h : now ≤ later) (hold : ∀ t ∈ l, window < now - t) :
    recent window later l = [] := by
  rw [recent, List.filter_eq_nil_iff]
  intro t ht hrecent
  have hlate : now - t ≤ later - t := sub_le_sub_right h t
  exact lt_irrefl _
    (lt_trans (lt_of_lt_of_le (hold t ht) hlate) (of_decide_eq_true hrecent))

end ResidentCrm
