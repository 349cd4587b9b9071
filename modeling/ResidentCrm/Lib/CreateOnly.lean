import Mathlib.Data.Finset.Card
import Mathlib.Data.List.Dedup
import Mathlib.Tactic.Common

/-!
# Create-only records

A store that accepts a record only where none is kept under its key; a record without a key is
always accepted. `firsts key l` is what the store keeps of the records `l`, in the order in which
they were offered. What is kept under a key is the first record offered under it
(`first_firsts`), so anything counted over the store is counted over the keys (`countP_firsts`)
and does not depend on the order beyond these first records (`distinct_congr`).
-/

namespace ResidentCrm.CreateOnly

universe u v

variable {α : Type u} {κ : Type v} [DecidableEq κ] (key : α → Option κ)

/-- The first record under a key. -/
def first (l : List α) (k : κ) : Option α := l.find? (key · = some k)

/-- A record kept unless its key is taken. -/
def insertNew (l : List α) (a : α) : List α :=
  if (key a).any fun k => (first key l k).isSome then l else l ++ [a]

def firsts (l : List α) : List α := l.foldl (insertNew key) []

def keys (l : List α) : Finset κ := (l.filterMap key).toFinset

/-- The keys whose first record satisfies `p`. -/
def distinct (p : α → Bool) (l : List α) : ℕ := {k ∈ keys key l | (first key l k).any p}.card

variable {key} {l l' : List α} {a b : α} {k k' : κ} {p : α → Bool}

theorem mem_keys : k ∈ keys key l ↔ ∃ a ∈ l, key a = some k := by
  simp only [keys, List.mem_toFinset, List.mem_filterMap]

theorem first_isSome : (first key l k).isSome ↔ k ∈ keys key l := by
  simp only [first, List.find?_isSome, decide_eq_true_eq, mem_keys]

theorem first_eq_none : first key l k = none ↔ k ∉ keys key l := by
  rw [← first_isSome, Option.isSome_iff_ne_none, not_not]

theorem mem_of_first (h : first key l k = some a) : a ∈ l := List.mem_of_find?_eq_some h

theorem first_concat : first key (l ++ [a]) k =
    (first key l k).or (if key a = some k then some a else none) := by
  unfold first
  rw [List.find?_append, List.find?_singleton]
  simp only [decide_eq_true_eq]

/-! ## One record -/

/-- A record whose key is taken is dropped, and any other is kept. -/
theorem insertNew_cases (key : α → Option κ) (l : List α) (a : α) :
    (∃ k ∈ keys key l, key a = some k ∧ insertNew key l a = l) ∨
      ((∀ k, key a = some k → k ∉ keys key l) ∧ insertNew key l a = l ++ [a]) := by
  unfold insertNew
  split
  · next hany =>
    obtain ⟨k, hk, htaken⟩ := (Option.any_eq_true _ _).1 hany
    exact .inl ⟨k, first_isSome.1 htaken, hk, rfl⟩
  · next hany =>
    refine .inr ⟨fun k hk hmem => hany ?_, rfl⟩
    rw [hk]
    exact first_isSome.2 hmem

theorem mem_of_mem_insertNew (h : b ∈ insertNew key l a) : b ∈ l ∨ b = a := by
  rcases insertNew_cases key l a with ⟨-, -, -, heq⟩ | ⟨-, heq⟩ <;> rw [heq] at h
  · exact .inl h
  · simpa using h

theorem mem_insertNew_of_mem (h : b ∈ l) : b ∈ insertNew key l a := by
  rcases insertNew_cases key l a with ⟨-, -, -, heq⟩ | ⟨-, heq⟩ <;> rw [heq]
  · exact h
  · exact List.mem_append_left _ h

theorem first_insertNew : first key (insertNew key l a) k = first key (l ++ [a]) k := by
  rcases insertNew_cases key l a with ⟨k', hk', ha, heq⟩ | ⟨-, heq⟩ <;> rw [heq]
  rw [first_concat]
  split
  · next hk =>
    obtain rfl : k' = k := Option.some.inj (ha.symm.trans hk)
    obtain ⟨b, hb⟩ := Option.isSome_iff_exists.1 (first_isSome.2 hk')
    rw [hb, Option.some_or]
  · rw [Option.or_none]

/-! ## The store -/

@[simp] theorem firsts_nil : firsts key [] = [] := rfl

@[simp] theorem firsts_concat : firsts key (l ++ [a]) = insertNew key (firsts key l) a := by
  simp only [firsts, List.foldl_append, List.foldl_cons, List.foldl_nil]

theorem first_firsts : first key (firsts key l) k = first key l k := by
  induction l using List.reverseRecOn with
  | nil => rfl
  | append_singleton l a ih => rw [firsts_concat, first_insertNew, first_concat, first_concat, ih]

theorem mem_of_mem_firsts (h : b ∈ firsts key l) : b ∈ l := by
  induction l using List.reverseRecOn with
  | nil => exact h
  | append_singleton l a ih =>
    rw [firsts_concat] at h
    rcases mem_of_mem_insertNew h with h | rfl
    · exact List.mem_append_left _ (ih h)
    · exact List.mem_append_right _ (List.mem_singleton_self b)

theorem keys_firsts : keys key (firsts key l) = keys key l := by
  ext k
  rw [← first_isSome, first_firsts, first_isSome]

theorem keys_concat_of_none (ha : key a = none) : keys key (l ++ [a]) = keys key l := by
  simp [keys, ha]

theorem keys_concat_of_some (ha : key a = some k) :
    keys key (l ++ [a]) = insert k (keys key l) := by
  ext k'
  simp [keys, ha]

/-- A record of the store is the first under its key. -/
theorem first_of_mem_firsts (h : a ∈ firsts key l) (hk : key a = some k) :
    first key l k = some a := by
  induction l using List.reverseRecOn with
  | nil => cases h
  | append_singleton l b ih =>
    rw [firsts_concat] at h
    rw [first_concat]
    rcases insertNew_cases key (firsts key l) b with ⟨-, -, -, heq⟩ | ⟨hfree, heq⟩ <;> rw [heq] at h
    · rw [ih h, Option.some_or]
    · rcases List.mem_append.1 h with h | h
      · rw [ih h, Option.some_or]
      · obtain rfl := List.mem_singleton.1 h
        have hnone : first key l k = none := by
          rw [first_eq_none, ← keys_firsts]
          exact hfree k hk
        rw [hnone, Option.none_or, if_pos hk]

/-! ## Counting -/

/-- **Counting over the store is counting over the keys**, and over the records without one. -/
theorem countP_firsts (key : α → Option κ) (p : α → Bool) (l : List α) :
    (firsts key l).countP p = distinct key p l + l.countP fun a => (key a).isNone && p a := by
  induction l using List.reverseRecOn with
  | nil => rfl
  | append_singleton l a ih =>
    rw [firsts_concat, List.countP_append, List.countP_singleton]
    rcases insertNew_cases key (firsts key l) a with ⟨k, hk, ha, heq⟩ | ⟨hfree, heq⟩ <;> rw [heq]
    · rw [keys_firsts] at hk
      have hkeys : keys key (l ++ [a]) = keys key l := by
        rw [keys_concat_of_some ha, Finset.insert_eq_self.2 hk]
      have hfirst : ∀ k', first key (l ++ [a]) k' = first key l k' := by
        intro k'
        rw [← first_firsts, firsts_concat, heq, first_firsts]
      simp only [distinct, hkeys, hfirst, ha, Option.isNone_some, Bool.false_and,
        Bool.false_eq_true, if_false, Nat.add_zero]
      rw [ih, distinct]
    rw [keys_firsts] at hfree
    rw [List.countP_append, List.countP_singleton, ih]
    cases ha : key a with
    | none =>
      have hfirst : ∀ k', first key (l ++ [a]) k' = first key l k' := by
        intro k'
        rw [first_concat, ha, if_neg nofun, Option.or_none]
      simp only [distinct, keys_concat_of_none ha, hfirst, Option.isNone_none, Bool.true_and]
      omega
    | some k =>
      have hnew : k ∉ keys key l := hfree k ha
      -- the new key adds itself where its record satisfies `p`
      have hold : {k' ∈ keys key l | (first key (l ++ [a]) k').any p} =
          {k' ∈ keys key l | (first key l k').any p} := by
        refine Finset.filter_congr fun k' hk' => ?_
        obtain ⟨b, hb⟩ := Option.isSome_iff_exists.1 (first_isSome.2 hk')
        rw [first_concat, hb, Option.some_or]
      have hself : first key (l ++ [a]) k = some a := by
        rw [first_concat, first_eq_none.2 hnew, Option.none_or, if_pos ha]
      simp only [distinct, keys_concat_of_some ha, Finset.filter_insert, hself, Option.any_some,
        hold, Option.isNone_some, Bool.false_and, Bool.false_eq_true, if_false, Nat.add_zero]
      split
      · rw [Finset.card_insert_of_notMem fun h => hnew (Finset.mem_filter.1 h).1]
        omega
      · rw [Nat.add_zero]

/-- **The order of the offers does not matter** beyond the first records. -/
theorem distinct_congr (h : l.Perm l') (hfirst : ∀ k, first key l k = first key l' k) :
    distinct key p l = distinct key p l' := by
  have hkeys : keys key l = keys key l' := List.toFinset_eq_of_perm _ _ (h.filterMap key)
  simp only [distinct, hkeys, hfirst]

end ResidentCrm.CreateOnly
