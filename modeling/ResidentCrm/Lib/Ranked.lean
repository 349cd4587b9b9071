import Mathlib.Order.Basic
import Mathlib.Data.List.Basic
import Mathlib.Order.Lattice
import Mathlib.Tactic.Common

/-!
# Ranks with optional counters

A `Rank` is a key of a linear order and, sometimes, a counter. Two ranks are ordered by their
keys; those with one key are ordered by their counters where both have one, and are tied
otherwise. Being behind is a strict partial order (`Rank.Behind.trans`), but a tie is no
equivalence: a rank without a counter ties with every counter of its key.

A single pass that keeps the first of what is tied (`pick`) finds an element nothing in the list is
behind (`not_before_pick`), and no more: which one depends on the order of the list.
-/

namespace ResidentCrm

/-- A key and possibly a counter. -/
structure Rank (κ : Type*) where
  key : κ
  counter : Option ℕ
deriving DecidableEq

namespace Rank

variable {κ : Type*} [LinearOrder κ]

def Behind (a b : Rank κ) : Prop :=
  a.key < b.key ∨ a.key = b.key ∧ ∃ m ∈ a.counter, ∃ n ∈ b.counter, m < n

instance (a b : Rank κ) : Decidable (a.Behind b) :=
  inferInstanceAs (Decidable (_ ∨ _ ∧ _))

variable {a b c : Rank κ}

theorem Behind.key_le (h : a.Behind b) : a.key ≤ b.key := by
  rcases h with h | ⟨h, -⟩
  · exact le_of_lt h
  · exact le_of_eq h

theorem not_behind_self (a : Rank κ) : ¬ a.Behind a := by
  rintro (h | ⟨-, m, hm, n, hn, hmn⟩)
  · exact lt_irrefl _ h
  · have : m = n := Option.some.inj ((Option.mem_def.1 hm).symm.trans (Option.mem_def.1 hn))
    omega

theorem key_le_of_not_behind (h : ¬ a.Behind b) : b.key ≤ a.key := by
  by_contra hlt
  exact h (.inl (not_le.1 hlt))

theorem Behind.trans (h : a.Behind b) (h' : b.Behind c) : a.Behind c := by
  rcases h with h | ⟨hk, m, hm, n, hn, hmn⟩
  · exact .inl (lt_of_lt_of_le h h'.key_le)
  · rcases h' with h' | ⟨hk', n', hn', p, hp, hnp⟩
    · exact .inl (hk ▸ h')
    · have : n = n' := Option.some.inj ((Option.mem_def.1 hn).symm.trans (Option.mem_def.1 hn'))
      exact .inr ⟨hk.trans hk', m, hm, p, hp, by omega⟩

theorem Behind.asymm (h : a.Behind b) : ¬ b.Behind a :=
  fun h' => not_behind_self a (h.trans h')

/-- Where `a` is not behind `b` and the key of `b` is no lower than that of `c`, `a` can be behind
`c` only by its counter. -/
theorem counters_of_behind (hab : ¬ a.Behind b) (hbc : c.key ≤ b.key) (h : a.Behind c) :
    a.key = c.key ∧ ∃ m ∈ a.counter, ∃ n ∈ c.counter, m < n := by
  have hba := key_le_of_not_behind hab
  rcases h with h | h
  · exact absurd (lt_of_lt_of_le h (hbc.trans hba)) (lt_irrefl _)
  · exact h

/-! ## The floor of a list -/

/-- No rank of the list has a lower key. -/
def Lowest (l : List (Rank κ)) (a : Rank κ) : Prop := ∀ b ∈ l, a.key ≤ b.key

/-- The ranks of the lowest key all have a counter or all have none. -/
def OneKind (l : List (Rank κ)) : Prop :=
  ∀ a ∈ l, ∀ b ∈ l, Lowest l a → Lowest l b → a.counter.isSome = b.counter.isSome

instance (l : List (Rank κ)) (a : Rank κ) : Decidable (Lowest l a) :=
  inferInstanceAs (Decidable (∀ b ∈ l, a.key ≤ b.key))

instance (l : List (Rank κ)) : Decidable (OneKind l) :=
  inferInstanceAs (Decidable (∀ a ∈ l, ∀ b ∈ l, Lowest l a → Lowest l b → _))

theorem lowest_of_none_behind {l : List (Rank κ)} (h : ∀ b ∈ l, ¬ b.Behind a) : Lowest l a :=
  fun b hb => key_le_of_not_behind (h b hb)

/-- Where the lowest ranks are of one kind, one that none is behind stands for all of them. -/
theorem behind_iff_exists_behind {l : List (Rank κ)} (hkind : OneKind l) (ha : a ∈ l)
    (hnone : ∀ b ∈ l, ¬ b.Behind a) : a.Behind c ↔ ∃ b ∈ l, b.Behind c := by
  refine ⟨fun h => ⟨a, ha, h⟩, ?_⟩
  rintro ⟨b, hb, h⟩
  have hlowest := lowest_of_none_behind hnone
  rcases h with hlt | ⟨hkey, m, hm, n, hn, hmn⟩
  · exact .inl (lt_of_le_of_lt (hlowest b hb) hlt)
  · rcases lt_or_eq_of_le (hlowest b hb) with hlt | heq
    · exact .inl (hkey ▸ hlt)
    · -- both are lowest, so the kept one has a counter, and no greater one
      have hblowest : Lowest l b := fun x hx => heq ▸ hlowest x hx
      have hsome := hkind a ha b hb hlowest hblowest
      rw [Option.mem_def.1 hm, Option.isSome_some] at hsome
      obtain ⟨p, hp⟩ := Option.isSome_iff_exists.1 hsome
      have hpm : p ≤ m := by
        by_contra hlt
        exact hnone b hb (.inr ⟨heq.symm, m, hm, p, hp, not_le.1 hlt⟩)
      exact .inr ⟨heq.trans hkey, p, hp, n, hn, lt_of_le_of_lt hpm hmn⟩

/-- A rank of the lowest key that has no counter has nothing behind it. -/
theorem not_behind_of_bare {l : List (Rank κ)} (hlowest : Lowest l a) (hbare : a.counter = none)
    {b : Rank κ} (hb : b ∈ l) : ¬ b.Behind a := by
  rintro (h | ⟨-, m, -, n, hn, -⟩)
  · exact absurd (hlowest b hb) (not_le.2 h)
  · rw [hbare] at hn
    cases hn

end Rank

/-! ## One pass over a list -/

section

variable {α : Type*} {r : α → α → Prop} [DecidableRel r]

/-- The pass that keeps the first element so far that no later one was before. -/
def pick (r : α → α → Prop) [DecidableRel r] (a : α) (l : List α) : α :=
  l.foldl (fun kept x => if r x kept then x else kept) a

@[simp] theorem pick_nil (a : α) : pick r a [] = a := rfl

theorem pick_cons (a x : α) (l : List α) :
    pick r a (x :: l) = pick r (if r x a then x else a) l := rfl

theorem pick_eq_self {a : α} {l : List α} (h : ∀ x ∈ l, ¬ r x a) : pick r a l = a := by
  induction l with
  | nil => rfl
  | cons x l ih =>
    rw [pick_cons, if_neg (h x List.mem_cons_self)]
    exact ih fun y hy => h y (List.mem_cons_of_mem _ hy)

theorem pick_mem (a : α) (l : List α) : pick r a l ∈ a :: l := by
  induction l generalizing a with
  | nil => exact List.mem_cons_self
  | cons x l ih =>
    rw [pick_cons]
    rcases List.mem_cons.1 (ih (if r x a then x else a)) with h | h
    · rw [h]
      split
      · exact List.mem_cons_of_mem _ List.mem_cons_self
      · exact List.mem_cons_self
    · exact List.mem_cons_of_mem _ (List.mem_cons_of_mem _ h)

section

variable (irrefl : ∀ x, ¬ r x x) (trans : ∀ x y z, r x y → r y z → r x z)
include trans

theorem not_before_pick_of_not_before {a y : α} (h : ¬ r y a) (l : List α) :
    ¬ r y (pick r a l) := by
  induction l generalizing a with
  | nil => exact h
  | cons x l ih =>
    rw [pick_cons]
    apply ih
    split
    · next hxa => exact fun hyx => h (trans _ _ _ hyx hxa)
    · exact h

include irrefl

/-- What the pass keeps has nothing of the list before it. -/
theorem not_before_pick (a : α) (l : List α) : ∀ x ∈ a :: l, ¬ r x (pick r a l) := by
  intro x hx
  rcases List.mem_cons.1 hx with rfl | hx
  · exact not_before_pick_of_not_before trans (irrefl x) l
  · induction l generalizing a with
    | nil => cases hx
    | cons y l ih =>
      rw [pick_cons]
      rcases List.mem_cons.1 hx with rfl | hx
      · apply not_before_pick_of_not_before trans
        split
        · exact irrefl x
        · next h => exact h
      · exact ih _ (List.mem_cons_of_mem _ hx) hx

end

end

end ResidentCrm
