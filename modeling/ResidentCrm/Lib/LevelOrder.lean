import Mathlib.Algebra.Order.Ring.Int
import Mathlib.Data.List.Basic
import Mathlib.Tactic.Common

/-!
# Breadth-first search by levels

A queue from which one node after another is taken, its children put at the end, until something is
found, a node is too deep, or too many nodes were taken. Where the nodes are few enough, what is
found is the first in the order of levels (`search_eq_searchLevels`).
-/

namespace ResidentCrm.LevelOrder

variable {α β : Type*} (found : α → Option β) (children : α → List α)

/-- The search, with the nodes that may still be taken. The nodes of the queue come with their
depths. -/
def search (maxDepth : ℤ) : ℕ → List (α × ℕ) → Option β
  | _, [] => none
  | 0, _ :: _ => none
  | n + 1, (a, depth) :: queue =>
    if maxDepth < depth then none
    else (found a).or
      (search maxDepth n (queue ++ (children a).map fun child => (child, depth + 1)))

/-- The nodes so many steps below those of the list. -/
def level (l : List α) : ℕ → List α
  | 0 => l
  | d + 1 => (level l d).flatMap children

/-- The first that is found in so many levels. -/
def searchLevels : ℕ → List α → Option β
  | 0, _ => none
  | m + 1, l => (l.findSome? found).or (searchLevels m (l.flatMap children))

variable {found children}

theorem searchLevels_nil (m : ℕ) : searchLevels found children m [] = none := by
  induction m with
  | zero => rfl
  | succ m ih => exact ih

theorem level_flatMap (l : List α) (d : ℕ) :
    level children (l.flatMap children) d = level children l (d + 1) := by
  induction d with
  | zero => rfl
  | succ d ih => rw [level, ih, ← level]

/-! ## The queue -/

section Queue

variable {size : α → ℕ} {maxDepth : ℤ}

variable (found children maxDepth) in
/-- What is found of a queue that holds the rest of a level, `l`, and behind it nodes of the next:
first in the rest, then by levels. -/
def FindsByLevels (n d : ℕ) (l l' : List α) : Prop :=
  search found children maxDepth n (l.map (·, d) ++ l'.map (·, d + 1)) =
    (l.findSome? found).or
      (searchLevels found children (maxDepth - d).toNat (l' ++ l.flatMap children))

/-- Taking one node of the level. -/
theorem FindsByLevels.cons {n d : ℕ} {a : α} {l l' : List α} (hd : (d : ℤ) ≤ maxDepth)
    (h : FindsByLevels found children maxDepth n d l (l' ++ children a)) :
    FindsByLevels found children maxDepth (n + 1) d (a :: l) l' := by
  rw [FindsByLevels, List.map_append, List.append_assoc, ← List.append_assoc (l.map _)] at h
  rw [FindsByLevels, List.map_cons, List.cons_append, search, if_neg (not_lt.2 hd), h,
    List.findSome?_cons, List.flatMap_cons]
  cases found a <;> rfl

/-- Going on with the next level. -/
theorem FindsByLevels.next {n d : ℕ} {l : List α}
    (h : (d : ℤ) + 1 ≤ maxDepth → FindsByLevels found children maxDepth n (d + 1) l []) :
    FindsByLevels found children maxDepth n d [] l := by
  rw [FindsByLevels, List.map_nil, List.nil_append, List.findSome?_nil, Option.none_or,
    List.flatMap_nil, List.append_nil]
  by_cases hd : (d : ℤ) + 1 ≤ maxDepth
  · have hleft : (maxDepth - d).toNat = (maxDepth - (d + 1 : ℕ)).toNat + 1 := by omega
    have h := h hd
    rw [FindsByLevels, List.map_nil, List.append_nil, List.nil_append] at h
    rw [h, hleft, searchLevels]
  · have hnone : (maxDepth - d).toNat = 0 := by omega
    rw [hnone, searchLevels]
    cases l with
    | nil => cases n <;> rfl
    | cons a l =>
      cases n with
      | zero => rfl
      | succ n => exact if_pos (by push_cast; omega)

/-- The size of a node is the number of the nodes from it downwards. -/
theorem findsByLevels (hsize : ∀ a, size a = 1 + ((children a).map size).sum) {n : ℕ} :
    ∀ {d : ℕ} {l l' : List α}, ((l ++ l').map size).sum ≤ n → (d : ℤ) ≤ maxDepth →
      FindsByLevels found children maxDepth n d l l' := by
  induction n with
  | zero =>
    intro d l l' hn hd
    have hempty : l ++ l' = [] := by
      cases hl : l ++ l' with
      | nil => rfl
      | cons a _ =>
        rw [hl, List.map_cons, List.sum_cons, hsize a] at hn
        omega
    obtain ⟨rfl, rfl⟩ := List.append_eq_nil_iff.1 hempty
    exact (searchLevels_nil _).symm
  | succ n ih =>
    have hcons : ∀ {d : ℕ} {a : α} {l l' : List α}, ((a :: l ++ l').map size).sum ≤ n + 1 →
        (d : ℤ) ≤ maxDepth → FindsByLevels found children maxDepth (n + 1) d (a :: l) l' := by
      intro d a l l' hn hd
      refine .cons hd (ih ?_ hd)
      simp only [List.cons_append, List.map_cons, List.map_append, List.sum_cons, List.sum_append,
        hsize a] at hn ⊢
      omega
    intro d l l' hn hd
    cases l with
    | cons a l => exact hcons hn hd
    | nil =>
      refine .next fun hd' => ?_
      cases l' with
      | nil =>
        rw [FindsByLevels]
        exact (searchLevels_nil _).symm
      | cons a l' => exact hcons (by simpa using hn) (by exact_mod_cast hd')

end Queue

/-- **A search that takes every node if need be finds by levels.** -/
theorem search_eq_searchLevels {size : α → ℕ}
    (hsize : ∀ a, size a = 1 + ((children a).map size).sum) (maxDepth : ℤ) {n : ℕ} {a : α}
    (hn : size a ≤ n) :
    search found children maxDepth n [(a, 0)] =
      searchLevels found children (maxDepth + 1).toNat [a] := by
  by_cases hdepth : 0 ≤ maxDepth
  · have hlevels : (maxDepth + 1).toNat = (maxDepth - (0 : ℕ)).toNat + 1 := by omega
    have hfinds : FindsByLevels found children maxDepth n 0 [a] [] :=
      findsByLevels hsize (by simpa using hn) (by exact_mod_cast hdepth)
    rw [FindsByLevels, List.nil_append] at hfinds
    rw [hlevels, searchLevels]
    exact hfinds
  · have hnone : (maxDepth + 1).toNat = 0 := by omega
    rw [hsize a] at hn
    obtain ⟨n, rfl⟩ : ∃ k, n = k + 1 := Nat.exists_eq_succ_of_ne_zero (by omega)
    rw [hnone, searchLevels]
    exact if_pos (by push_cast; omega)

/-! ## What is found by levels -/

theorem searchLevels_eq_none_iff {m : ℕ} {l : List α} :
    searchLevels found children m l = none ↔
      ∀ d, d < m → ∀ a ∈ level children l d, found a = none := by
  induction m generalizing l with
  | zero => exact iff_of_true rfl fun d hd => absurd hd (Nat.not_lt_zero d)
  | succ m ih =>
    rw [searchLevels, Option.or_eq_none_iff, List.findSome?_eq_none_iff, ih]
    constructor
    · rintro ⟨hfirst, hrest⟩ d hd
      cases d with
      | zero => exact hfirst
      | succ d => exact level_flatMap l d ▸ hrest d (Nat.lt_of_succ_lt_succ hd)
    · refine fun h => ⟨h 0 (Nat.succ_pos m), fun d hd => ?_⟩
      rw [level_flatMap]
      exact h (d + 1) (Nat.succ_lt_succ hd)

/-- It is the first of the first level that has one. -/
theorem searchLevels_eq_some_iff {m : ℕ} {l : List α} {x : β} :
    searchLevels found children m l = some x ↔
      ∃ d before a after, d < m ∧ level children l d = before ++ a :: after ∧ found a = some x ∧
        (∀ b ∈ before, found b = none) ∧
          ∀ d', d' < d → ∀ b ∈ level children l d', found b = none := by
  induction m generalizing l with
  | zero =>
    exact iff_of_false (fun h => by cases h)
      fun ⟨d, _, _, _, hd, _⟩ => absurd hd (Nat.not_lt_zero d)
  | succ m ih =>
    rw [searchLevels, Option.or_eq_some_iff, List.findSome?_eq_some_iff, List.findSome?_eq_none_iff,
      ih]
    constructor
    · rintro (⟨before, a, after, hl, ha, hbefore⟩ | ⟨hfirst, hrest⟩)
      · exact ⟨0, before, a, after, Nat.succ_pos m, hl, ha, hbefore,
          fun d' hd' => absurd hd' (Nat.not_lt_zero d')⟩
      · obtain ⟨d, before, a, after, hd, hl, ha, hbefore, habove⟩ := hrest
        rw [level_flatMap] at hl
        refine ⟨d + 1, before, a, after, Nat.succ_lt_succ hd, hl, ha, hbefore, fun d' hd' => ?_⟩
        cases d' with
        | zero => exact hfirst
        | succ d' => exact level_flatMap l d' ▸ habove d' (Nat.lt_of_succ_lt_succ hd')
    · rintro ⟨d, before, a, after, hd, hl, ha, hbefore, habove⟩
      cases d with
      | zero => exact .inl ⟨before, a, after, hl, ha, hbefore⟩
      | succ d =>
        refine .inr ⟨habove 0 (Nat.succ_pos d), d, before, a, after, Nat.lt_of_succ_lt_succ hd, ?_,
          ha, hbefore, fun d' hd' => ?_⟩
        · rw [level_flatMap, hl]
        · rw [level_flatMap]
          exact habove (d' + 1) (Nat.succ_lt_succ hd')

end ResidentCrm.LevelOrder
