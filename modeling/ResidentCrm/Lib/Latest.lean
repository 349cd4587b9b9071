import Mathlib.Data.List.DropRight
import Mathlib.Data.List.Nodup
import Mathlib.Tactic.Common

/-!
# The latest of each key

A list that keeps one value for each key: a value that is put at its end takes the place of the one
with its key. Of the values put one after another the latest of each key are kept (`foldl_put`), and
cutting the list to its last `n` in between makes no difference to its last `n` (`rtake_foldl_put`).
-/

namespace ResidentCrm

variable {α κ : Type*} [DecidableEq κ] (key : α → κ)

/-- The value at the end, and no other of its key. -/
def put (l : List α) (a : α) : List α := l.filter (key · ≠ key a) ++ [a]

/-- The values after which none of their key comes. -/
def latest : List α → List α
  | [] => []
  | a :: l => if key a ∈ l.map key then latest l else a :: latest l

theorem latest_concat (l : List α) (a : α) : latest key (l ++ [a]) = put key (latest key l) a := by
  induction l with
  | nil => rfl
  | cons b l ih =>
    have hmem : key b ∈ (l ++ [a]).map key ↔ key b ∈ l.map key ∨ key b = key a := by simp
    rw [List.cons_append, latest, latest, ih]
    by_cases hlater : key b ∈ l.map key
    · rw [if_pos (hmem.2 (.inl hlater)), if_pos hlater]
    · by_cases hsame : key b = key a
      · rw [if_pos (hmem.2 (.inr hsame)), if_neg hlater]
        simp [put, hsame]
      · rw [if_neg fun h => (hmem.1 h).elim hlater hsame, if_neg hlater]
        simp [put, hsame]

/-- **Putting one after another keeps the latest of each key.** -/
theorem foldl_put (l l' : List α) : l'.foldl (put key) (latest key l) = latest key (l ++ l') := by
  induction l' generalizing l with
  | nil => rw [List.foldl_nil, List.append_nil]
  | cons a l' ih =>
    rw [List.foldl_cons, ← latest_concat, ih, List.append_assoc, List.singleton_append]

theorem nodup_put {l : List α} (h : (l.map key).Nodup) (a : α) : ((put key l a).map key).Nodup := by
  rw [put, List.map_append, List.map_singleton, List.nodup_append]
  refine ⟨h.sublist (List.filter_sublist.map key), List.nodup_singleton _, ?_⟩
  intro k hk k' hk'
  obtain ⟨b, hb, rfl⟩ := List.mem_map.1 hk
  rw [List.mem_singleton.1 hk']
  simpa using (List.mem_filter.1 hb).2

theorem nodup_foldl_put {l : List α} (h : (l.map key).Nodup) (l' : List α) :
    ((l'.foldl (put key) l).map key).Nodup := by
  induction l' generalizing l with
  | nil => exact h
  | cons a l' ih => exact ih (nodup_put key h a)

theorem nodup_latest (l : List α) : ((latest key l).map key).Nodup := by
  have h := nodup_foldl_put key (l := latest key []) List.nodup_nil l
  rwa [foldl_put, List.nil_append] at h

/-- One value at most makes room for another. -/
theorem length_le_put {l : List α} (h : (l.map key).Nodup) (a : α) :
    l.length ≤ (put key l a).length := by
  have hcount : l.countP (key · = key a) ≤ 1 := by
    have hone := List.nodup_iff_count_le_one.1 h (key a)
    rwa [List.count, List.countP_map, List.countP_congr] at hone
    simp
  have hparts : l.length = l.countP (key · = key a) + l.countP (key · ≠ key a) := by
    rw [List.length_eq_countP_add_countP fun b => decide (key b = key a)]
    simp
  rw [put, List.length_append, List.length_singleton, ← List.countP_eq_length_filter]
  omega

theorem length_le_foldl_put {l : List α} (h : (l.map key).Nodup) (l' : List α) :
    l.length ≤ (l'.foldl (put key) l).length := by
  induction l' generalizing l with
  | nil => exact Nat.le_refl _
  | cons a l' ih => exact Nat.le_trans (length_le_put key h a) (ih (nodup_put key h a))

/-! ## The last `n` -/

theorem suffix_put {l l' : List α} (h : l <:+ l') (a : α) : put key l a <:+ put key l' a := by
  obtain ⟨front, rfl⟩ := h
  exact ⟨front.filter (key · ≠ key a), by simp [put]⟩

theorem suffix_foldl_put {l l' : List α} (h : l <:+ l') (m : List α) :
    m.foldl (put key) l <:+ m.foldl (put key) l' := by
  induction m generalizing l l' with
  | nil => exact h
  | cons a m ih => exact ih (suffix_put key h a)

theorem rtake_of_suffix {l l' : List α} (h : l <:+ l') {n : ℕ} (hn : n ≤ l.length) :
    l.rtake n = l'.rtake n := by
  obtain ⟨front, rfl⟩ := h
  have hdrop : (front ++ l).length - n = front.length + (l.length - n) := by
    rw [List.length_append]
    omega
  rw [List.rtake, List.rtake, hdrop, ← List.drop_drop, List.drop_left]

/-- **What is cut off in between is not missed.** -/
theorem rtake_foldl_put {l : List α} (h : (l.map key).Nodup) (m : List α) (n : ℕ) :
    (m.foldl (put key) (l.rtake n)).rtake n = (m.foldl (put key) l).rtake n := by
  by_cases hn : n ≤ l.length
  · have hsuffix : l.rtake n <:+ l := List.drop_suffix _ _
    have hlength : (l.rtake n).length = n := by
      rw [List.rtake, List.length_drop]
      omega
    have hnodup : ((l.rtake n).map key).Nodup := h.sublist (hsuffix.sublist.map key)
    have hlong := length_le_foldl_put key hnodup m
    rw [hlength] at hlong
    exact rtake_of_suffix (suffix_foldl_put key hsuffix m) hlong
  · have hall : l.rtake n = l := by
      rw [List.rtake, Nat.sub_eq_zero_of_le (Nat.le_of_lt (Nat.lt_of_not_le hn)), List.drop_zero]
    rw [hall]

/-- Values put where they are already come to the end in their order. -/
theorem foldl_put_self {l l' : List α} (h : ((l ++ l').map key).Nodup) :
    l'.foldl (put key) (l' ++ l) = l ++ l' := by
  induction l' generalizing l with
  | nil => rw [List.foldl_nil, List.nil_append, List.append_nil]
  | cons a l' ih =>
    have hput : put key (a :: l' ++ l) a = l' ++ (l ++ [a]) := by
      have hother : ∀ b ∈ l' ++ l, key b ≠ key a := by
        intro b hb hkey
        have hnodup := h
        rw [List.map_append, List.map_cons, List.nodup_append, List.nodup_cons] at hnodup
        obtain ⟨-, ⟨hlater, -⟩, hbefore⟩ := hnodup
        rcases List.mem_append.1 hb with hb | hb
        · exact hlater (hkey ▸ List.mem_map_of_mem hb)
        · exact hbefore _ (List.mem_map_of_mem hb) _ List.mem_cons_self hkey
      rw [put, List.cons_append, List.filter_cons_of_neg (by simp), List.filter_eq_self.2 (by
        simpa using hother), List.append_assoc]
    rw [List.foldl_cons, hput, ih (by simpa using h), List.append_assoc, List.singleton_append]

end ResidentCrm
