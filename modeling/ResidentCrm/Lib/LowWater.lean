import Mathlib.Data.Finset.Max
import Mathlib.Data.Finset.SDiff
import Mathlib.Data.Finset.Filter
import Mathlib.Tactic.Common

/-!
# Low-water marks

Items of a linear order arrive in order, are started in the order they arrived, and finish out
of order. A `Ledger` keeps the items started and not yet retired, those of them that are
finished, and the items that wait to be started. What may be retired is the finished part below
every unfinished item (`safe`), and the mark of a retirement is the highest item it takes.

`Ledger.Ok` is the invariant and `Move` what one step may do. The two results: everything that
arrived at or below a mark is settled (`Ledger.Ok.mark_covers`), and the marks of one period
strictly increase (`Ledger.Ok.mark_above`). A retirement leaves nothing to retire until a further
item finishes or is abandoned (`offer_retire`, `Still.offer`).
-/

namespace ResidentCrm.LowWater

variable {α : Type*} [LinearOrder α]

/-! ## What may be retired -/

/-- The finished items below every item that is started and not finished. -/
def safe (started finished : Finset α) : Finset α :=
  finished.filter fun x => ∀ y ∈ started \ finished, x < y

def offer (started finished : Finset α) : Option α :=
  if h : (safe started finished).Nonempty then some ((safe started finished).max' h) else none

variable {D C : Finset α}

theorem mem_safe {x : α} : x ∈ safe D C ↔ x ∈ C ∧ ∀ y ∈ D, y ∉ C → x < y := by
  simp only [safe, Finset.mem_filter, Finset.mem_sdiff, and_imp]

theorem safe_subset : safe D C ⊆ C := Finset.filter_subset _ _

theorem finished_of_le_safe {x y : α} (hy : y ∈ safe D C) (hx : x ∈ D) (hxy : x ≤ y) : x ∈ C := by
  by_contra hxC
  exact absurd ((mem_safe.1 hy).2 x hx hxC) (not_lt.2 hxy)

theorem safe_of_le {x y : α} (hy : y ∈ safe D C) (hx : x ∈ D) (hxy : x ≤ y) : x ∈ safe D C :=
  mem_safe.2 ⟨finished_of_le_safe hy hx hxy,
    fun z hz hzC => lt_of_le_of_lt hxy ((mem_safe.1 hy).2 z hz hzC)⟩

theorem offer_eq_some {m : α} : offer D C = some m ↔ m ∈ safe D C ∧ ∀ x ∈ safe D C, x ≤ m := by
  unfold offer
  constructor
  · intro h
    split at h
    · next hne =>
      simp only [Option.some.injEq] at h
      subst h
      exact ⟨Finset.max'_mem _ hne, fun x hx => Finset.le_max' _ x hx⟩
    · cases h
  · rintro ⟨hm, hmax⟩
    rw [dif_pos ⟨m, hm⟩]
    exact congrArg some (le_antisymm (Finset.max'_le _ _ _ hmax) (Finset.le_max' _ m hm))

theorem offer_eq_none : offer D C = none ↔ safe D C = ∅ := by
  unfold offer
  split
  · next hne => simp [Finset.nonempty_iff_ne_empty.1 hne]
  · next hne => simpa using Finset.not_nonempty_iff_eq_empty.1 hne

/-- What is left after a retirement lies above all of it. -/
theorem lt_of_retired {m x : α} (hm : offer D C = some m) (hx : x ∈ D \ safe D C) : m < x := by
  obtain ⟨hxD, hxs⟩ := Finset.mem_sdiff.1 hx
  by_contra hle
  exact hxs (safe_of_le (offer_eq_some.1 hm).1 hxD (not_lt.1 hle))

/-- **A retirement leaves nothing to retire.** -/
theorem safe_retire : safe (D \ safe D C) (C \ safe D C) = ∅ := by
  refine Finset.eq_empty_of_forall_notMem fun x hx => ?_
  obtain ⟨hxC, hx⟩ := mem_safe.1 hx
  obtain ⟨hxC, hxs⟩ := Finset.mem_sdiff.1 hxC
  refine hxs (mem_safe.2 ⟨hxC, fun y hy hyC => hx y ?_ fun h => hyC (Finset.mem_sdiff.1 h).1⟩)
  exact Finset.mem_sdiff.2 ⟨hy, fun h => hyC (safe_subset h)⟩

theorem offer_retire : offer (D \ safe D C) (C \ safe D C) = none :=
  offer_eq_none.2 safe_retire

/-- Nothing becomes safe while no item finishes and no item leaves the started ones unfinished. -/
theorem safe_eq_empty_of_subset {D' C' : Finset α} (h : safe D C = ∅) (hC : C' ⊆ C)
    (hD : D \ C ⊆ D' \ C') : safe D' C' = ∅ := by
  refine Finset.eq_empty_of_forall_notMem fun x hx => ?_
  obtain ⟨hxC, hx⟩ := mem_safe.1 hx
  have : x ∈ safe D C := mem_safe.2 ⟨hC hxC, fun y hy hyC => by
    obtain ⟨hyD, hyC⟩ := Finset.mem_sdiff.1 (hD (Finset.mem_sdiff.2 ⟨hy, hyC⟩))
    exact hx y hyD hyC⟩
  rw [h] at this
  exact absurd this (Finset.notMem_empty x)

/-! ## The ledger -/

/-- The items of one period: those started and not retired, the finished ones among them, those
waiting to be started (in the order they arrived), all that arrived, the marks of the
retirements (the last one first), and which items are settled. -/
structure Ledger (α : Type*) where
  started : Finset α
  finished : Finset α
  waiting : List α
  arrived : Finset α
  marks : List α
  settled : α → Prop

/-- One step: an item settles, items arrive above all that arrived, the first waiting item is
started, a settled item finishes or is abandoned (either may be long retired), the safe items are
retired under a mark, or a new period begins. -/
inductive Move : Ledger α → Ledger α → Prop
  | idle {l : Ledger α} : Move l l
  | settle {l : Ledger α} {p : α → Prop} : (∀ x, l.settled x → p x) → Move l { l with settled := p }
  | arrive {l : Ledger α} {xs : List α} : xs.Pairwise (· < ·) →
      (∀ x ∈ xs, ∀ y ∈ l.arrived, y < x) →
      Move l { l with waiting := l.waiting ++ xs, arrived := l.arrived ∪ xs.toFinset }
  | start {l : Ledger α} {x : α} {xs : List α} : l.waiting = x :: xs →
      Move l { l with waiting := xs, started := insert x l.started }
  | finish {l : Ledger α} {x : α} : l.settled x → x ∈ l.started →
      Move l { l with finished := insert x l.finished }
  | abandon {l : Ledger α} {x : α} : l.settled x →
      Move l { l with started := l.started.erase x, finished := l.finished.erase x }
  | retire {l : Ledger α} {m : α} : offer l.started l.finished = some m →
      Move l { l with started := l.started \ safe l.started l.finished,
                      finished := l.finished \ safe l.started l.finished,
                      marks := m :: l.marks }
  | reset {l : Ledger α} : Move l ⟨∅, ∅, [], ∅, [], l.settled⟩

structure Ledger.Ok (l : Ledger α) : Prop where
  finished_started : l.finished ⊆ l.started
  finished_settled : ∀ x ∈ l.finished, l.settled x
  started_arrived : ∀ x ∈ l.started, x ∈ l.arrived
  waiting_arrived : ∀ x ∈ l.waiting, x ∈ l.arrived
  /-- What arrived waits, is started, or has been settled. -/
  covered : ∀ x ∈ l.arrived, x ∈ l.waiting ∨ x ∈ l.started ∨ l.settled x
  waiting_sorted : l.waiting.Pairwise (· < ·)
  started_before : ∀ x ∈ l.started, ∀ y ∈ l.waiting, x < y
  marks_arrived : ∀ m ∈ l.marks, m ∈ l.arrived
  marks_started : ∀ m ∈ l.marks, ∀ x ∈ l.started, m < x
  marks_waiting : ∀ m ∈ l.marks, ∀ x ∈ l.waiting, m < x
  marks_sorted : l.marks.Pairwise (· > ·)

namespace Ledger.Ok

variable {l l' : Ledger α}

theorem empty (p : α → Prop) : Ledger.Ok (⟨∅, ∅, [], ∅, [], p⟩ : Ledger α) := by
  constructor <;> simp

theorem settle (h : l.Ok) {p : α → Prop} (hp : ∀ x, l.settled x → p x) :
    Ledger.Ok { l with settled := p } where
  __ := h
  finished_settled x hx := hp x (h.finished_settled x hx)
  covered x hx := (h.covered x hx).imp_right (Or.imp_right (hp x))

theorem arrive (h : l.Ok) {xs : List α} (hs : xs.Pairwise (· < ·))
    (habove : ∀ x ∈ xs, ∀ y ∈ l.arrived, y < x) :
    Ledger.Ok { l with waiting := l.waiting ++ xs, arrived := l.arrived ∪ xs.toFinset } where
  __ := h
  started_arrived x hx := Finset.mem_union_left _ (h.started_arrived x hx)
  waiting_arrived x hx := by
    rcases List.mem_append.1 hx with hx | hx
    · exact Finset.mem_union_left _ (h.waiting_arrived x hx)
    · exact Finset.mem_union_right _ (List.mem_toFinset.2 hx)
  covered x hx := by
    rcases Finset.mem_union.1 hx with hx | hx
    · exact (h.covered x hx).imp_left fun hx => List.mem_append_left _ hx
    · exact .inl (List.mem_append_right _ (List.mem_toFinset.1 hx))
  waiting_sorted :=
    List.pairwise_append.2 ⟨h.waiting_sorted, hs, fun x hx y hy =>
      habove y hy x (h.waiting_arrived x hx)⟩
  started_before x hx y hy := by
    rcases List.mem_append.1 hy with hy | hy
    · exact h.started_before x hx y hy
    · exact habove y hy x (h.started_arrived x hx)
  marks_arrived m hm := Finset.mem_union_left _ (h.marks_arrived m hm)
  marks_waiting m hm x hx := by
    rcases List.mem_append.1 hx with hx | hx
    · exact h.marks_waiting m hm x hx
    · exact habove x hx m (h.marks_arrived m hm)

theorem start (h : l.Ok) {x : α} {xs : List α} (hw : l.waiting = x :: xs) :
    Ledger.Ok { l with waiting := xs, started := insert x l.started } := by
  have hx : x ∈ l.waiting := hw ▸ List.mem_cons_self
  have hsub : ∀ y ∈ xs, y ∈ l.waiting := fun y hy => hw ▸ List.mem_cons_of_mem _ hy
  have hs := h.waiting_sorted
  rw [hw, List.pairwise_cons] at hs
  exact
    { __ := h
      finished_started := h.finished_started.trans (Finset.subset_insert _ _)
      started_arrived := fun y hy => by
        rcases Finset.mem_insert.1 hy with rfl | hy
        · exact h.waiting_arrived _ hx
        · exact h.started_arrived y hy
      waiting_arrived := fun y hy => h.waiting_arrived y (hsub y hy)
      covered := fun y hy => by
        rcases h.covered y hy with hy | hy | hy
        · rw [hw] at hy
          rcases List.mem_cons.1 hy with rfl | hy
          · exact .inr (.inl (Finset.mem_insert_self _ _))
          · exact .inl hy
        · exact .inr (.inl (Finset.mem_insert_of_mem hy))
        · exact .inr (.inr hy)
      waiting_sorted := hs.2
      started_before := fun y hy z hz => by
        rcases Finset.mem_insert.1 hy with rfl | hy
        · exact hs.1 z hz
        · exact h.started_before y hy z (hsub z hz)
      marks_started := fun m hm y hy => by
        rcases Finset.mem_insert.1 hy with rfl | hy
        · exact h.marks_waiting m hm _ hx
        · exact h.marks_started m hm y hy
      marks_waiting := fun m hm y hy => h.marks_waiting m hm y (hsub y hy) }

theorem finish (h : l.Ok) {x : α} (hs : l.settled x) (hx : x ∈ l.started) :
    Ledger.Ok { l with finished := insert x l.finished } where
  __ := h
  finished_started := Finset.insert_subset hx h.finished_started
  finished_settled y hy := by
    rcases Finset.mem_insert.1 hy with rfl | hy
    · exact hs
    · exact h.finished_settled y hy

/-- Items that leave the started ones once they are settled leave the invariant true. -/
theorem shrink (h : l.Ok) {D C : Finset α} (hD : D ⊆ l.started) (hC : C ⊆ l.finished)
    (hCD : C ⊆ D) (hgone : ∀ x ∈ l.started, x ∉ D → l.settled x) :
    Ledger.Ok { l with started := D, finished := C } where
  __ := h
  finished_started := hCD
  finished_settled x hx := h.finished_settled x (hC hx)
  started_arrived x hx := h.started_arrived x (hD hx)
  covered x hx := by
    rcases h.covered x hx with hx | hx | hx
    · exact .inl hx
    · by_cases hxD : x ∈ D
      · exact .inr (.inl hxD)
      · exact .inr (.inr (hgone x hx hxD))
    · exact .inr (.inr hx)
  started_before x hx := h.started_before x (hD hx)
  marks_started m hm x hx := h.marks_started m hm x (hD hx)

theorem abandon (h : l.Ok) {x : α} (hs : l.settled x) :
    Ledger.Ok { l with started := l.started.erase x, finished := l.finished.erase x } := by
  refine h.shrink (Finset.erase_subset _ _) (Finset.erase_subset _ _)
    (Finset.erase_subset_erase _ h.finished_started) fun y hy hyx => ?_
  have : y = x := by
    by_contra hne
    exact hyx (Finset.mem_erase.2 ⟨hne, hy⟩)
  exact this ▸ hs

theorem retire (h : l.Ok) {m : α} (hm : offer l.started l.finished = some m) :
    Ledger.Ok { l with started := l.started \ safe l.started l.finished,
                       finished := l.finished \ safe l.started l.finished,
                       marks := m :: l.marks } := by
  have hmD : m ∈ l.started := h.finished_started (safe_subset (offer_eq_some.1 hm).1)
  have hs := h.shrink (D := l.started \ safe l.started l.finished)
    (C := l.finished \ safe l.started l.finished) Finset.sdiff_subset Finset.sdiff_subset
    (Finset.sdiff_subset_sdiff h.finished_started subset_rfl) fun x hx hxs => by
      have hsafe : x ∈ safe l.started l.finished := by
        by_contra hn
        exact hxs (Finset.mem_sdiff.2 ⟨hx, hn⟩)
      exact h.finished_settled x (safe_subset hsafe)
  exact
    { __ := hs
      marks_arrived := fun k hk => by
        rcases List.mem_cons.1 hk with rfl | hk
        · exact h.started_arrived _ hmD
        · exact h.marks_arrived k hk
      marks_started := fun k hk x hx => by
        rcases List.mem_cons.1 hk with rfl | hk
        · exact lt_of_retired hm hx
        · exact hs.marks_started k hk x hx
      marks_waiting := fun k hk x hx => by
        rcases List.mem_cons.1 hk with rfl | hk
        · exact h.started_before _ hmD x hx
        · exact h.marks_waiting k hk x hx
      marks_sorted := List.pairwise_cons.2
        ⟨fun k hk => h.marks_started k hk m hmD, h.marks_sorted⟩ }

/-- **The invariant step.** -/
theorem move (h : l.Ok) (hm : Move l l') : l'.Ok := by
  cases hm with
  | idle => exact h
  | settle hp => exact h.settle hp
  | arrive hs habove => exact h.arrive hs habove
  | start hw => exact h.start hw
  | finish hs hx => exact h.finish hs hx
  | abandon hs => exact h.abandon hs
  | retire hm => exact h.retire hm
  | reset => exact empty _

/-- **Everything that arrived at or below a mark is settled.** -/
theorem mark_covers (h : l.Ok) {m : α} (hm : offer l.started l.finished = some m) :
    ∀ x ∈ l.arrived, x ≤ m → l.settled x := by
  intro x hx hxm
  have hms := (offer_eq_some.1 hm).1
  rcases h.covered x hx with hx | hx | hx
  · have := h.started_before m (h.finished_started (safe_subset hms)) x hx
    exact absurd this (not_lt.2 hxm)
  · exact h.finished_settled x (finished_of_le_safe hms hx hxm)
  · exact hx

/-- **A mark lies above every earlier mark of its period.** -/
theorem mark_above (h : l.Ok) {m : α} (hm : offer l.started l.finished = some m) :
    ∀ k ∈ l.marks, k < m := fun k hk =>
  h.marks_started k hk m (h.finished_started (safe_subset (offer_eq_some.1 hm).1))

end Ledger.Ok

/-! ## Moves that make nothing safe -/

/-- Between the two ledgers no item was finished or abandoned: what was finished has at most been
retired, and what was started and unfinished still is, unless a new period began. -/
def Still (l l' : Ledger α) : Prop :=
  l'.finished ⊆ l.finished ∧
    (l.started \ l.finished ⊆ l'.started \ l'.finished ∨ l'.finished = ∅)

theorem Still.offer {l l' : Ledger α} (h : Still l l') (ho : offer l.started l.finished = none) :
    LowWater.offer l'.started l'.finished = none := by
  refine offer_eq_none.2 ?_
  rcases h.2 with hD | hC
  · exact safe_eq_empty_of_subset (offer_eq_none.1 ho) h.1 hD
  · exact Finset.subset_empty.1 (safe_subset.trans hC.subset)

end ResidentCrm.LowWater
