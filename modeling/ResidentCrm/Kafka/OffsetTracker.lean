import ResidentCrm.Lib.LowWater
import Mathlib.Data.Finset.Max
import Mathlib.Tactic.Common

/-!
# The offset tracker

`OffsetTracker` of `utils/kafkaConsumer.py`: for each partition the offsets dispatched and the
offsets completed, both as `defaultdict(set)`, so that a partition with no entry reads as the
empty set. Every method holds the tracker's lock and is one step here.

The floor the source computes, `min(still_running)`, makes the committable offsets the safe part
of `LowWater` (`committable_eq_safe`), and the committed position is one above the highest of
them (`commitOffset_eq_some`).
-/

namespace ResidentCrm.Kafka

open LowWater

structure OffsetTracker (TP : Type*) where
  dispatched : TP → Finset ℕ
  completed : TP → Finset ℕ

/-- The completed offsets below the lowest one still running; all of them when none is. -/
def committable (dispatched completed : Finset ℕ) : Finset ℕ :=
  let stillRunning := dispatched \ completed
  if h : stillRunning.Nonempty then
    completed.filter (· < stillRunning.min' h)
  else completed

/-- The position to commit: one above the highest committable offset. -/
def commitOffset (dispatched completed : Finset ℕ) : Option ℕ :=
  let safe := committable dispatched completed
  if h : safe.Nonempty then some (safe.max' h + 1) else none

namespace OffsetTracker

variable {TP : Type*} [DecidableEq TP]

def empty : OffsetTracker TP := ⟨fun _ => ∅, fun _ => ∅⟩

def markDispatched (t : OffsetTracker TP) (tp : TP) (offset : ℕ) : OffsetTracker TP :=
  { t with dispatched := Function.update t.dispatched tp (insert offset (t.dispatched tp)) }

/-- `completed(tp, offset)`: dropped unless the offset is dispatched here. -/
def markCompleted (t : OffsetTracker TP) (tp : TP) (offset : ℕ) : OffsetTracker TP :=
  if offset ∈ t.dispatched tp then
    { t with completed := Function.update t.completed tp (insert offset (t.completed tp)) }
  else t

/-- `abandoned(tp, offset)`: retired without being committed. -/
def markAbandoned (t : OffsetTracker TP) (tp : TP) (offset : ℕ) : OffsetTracker TP where
  dispatched := Function.update t.dispatched tp ((t.dispatched tp).erase offset)
  completed := Function.update t.completed tp ((t.completed tp).erase offset)

/-- `committable_for(partitions)`: the commits, and the tracker with the offsets they cover
retired. -/
def committableFor (t : OffsetTracker TP) (partitions : Finset TP) :
    (TP → Option ℕ) × OffsetTracker TP :=
  (fun tp => if tp ∈ partitions then commitOffset (t.dispatched tp) (t.completed tp) else none,
   { dispatched := fun tp =>
       if tp ∈ partitions then
         t.dispatched tp \ committable (t.dispatched tp) (t.completed tp)
       else t.dispatched tp
     completed := fun tp =>
       if tp ∈ partitions then
         t.completed tp \ committable (t.dispatched tp) (t.completed tp)
       else t.completed tp })

/-- `take_committable()`: the same for every partition tracked. -/
def takeCommittable (t : OffsetTracker TP) : (TP → Option ℕ) × OffsetTracker TP :=
  (fun tp => commitOffset (t.dispatched tp) (t.completed tp),
   { dispatched := fun tp => t.dispatched tp \ committable (t.dispatched tp) (t.completed tp)
     completed := fun tp => t.completed tp \ committable (t.dispatched tp) (t.completed tp) })

def forget (t : OffsetTracker TP) (partitions : Finset TP) : OffsetTracker TP where
  dispatched tp := if tp ∈ partitions then ∅ else t.dispatched tp
  completed tp := if tp ∈ partitions then ∅ else t.completed tp

section

variable (t : OffsetTracker TP) {tp tp' : TP} {offset : ℕ}

@[simp] theorem dispatched_markCompleted :
    (t.markCompleted tp offset).dispatched = t.dispatched := by
  unfold markCompleted
  split <;> rfl

theorem markCompleted_of_notMem (h : offset ∉ t.dispatched tp) :
    t.markCompleted tp offset = t := if_neg h

theorem completed_markCompleted (h : offset ∈ t.dispatched tp) :
    (t.markCompleted tp offset).completed tp = insert offset (t.completed tp) := by
  simp only [markCompleted, if_pos h, Function.update_self]

theorem completed_markCompleted_of_ne (h : tp' ≠ tp) :
    (t.markCompleted tp offset).completed tp' = t.completed tp' := by
  unfold markCompleted
  split
  · exact Function.update_of_ne h _ _
  · rfl

end

end OffsetTracker

/-! ## The floor is the low-water mark -/

theorem committable_eq_safe (dispatched completed : Finset ℕ) :
    committable dispatched completed = safe dispatched completed := by
  simp only [committable, safe]
  split
  · next h =>
    refine Finset.filter_congr fun x _ => ?_
    exact Finset.lt_min'_iff _ h
  · next h =>
    have hempty := Finset.not_nonempty_iff_eq_empty.1 h
    simp only [hempty, Finset.notMem_empty, false_imp_iff, implies_true, Finset.filter_true]

theorem commitOffset_eq (dispatched completed : Finset ℕ) :
    commitOffset dispatched completed = (offer dispatched completed).map (· + 1) := by
  simp only [commitOffset, offer, committable_eq_safe]
  split <;> rfl

theorem commitOffset_eq_some {dispatched completed : Finset ℕ} {c : ℕ} :
    commitOffset dispatched completed = some c ↔
      ∃ m, offer dispatched completed = some m ∧ c = m + 1 := by
  rw [commitOffset_eq, Option.map_eq_some_iff]
  exact exists_congr fun m => and_congr_right fun _ => eq_comm

theorem commitOffset_eq_none {dispatched completed : Finset ℕ} :
    commitOffset dispatched completed = none ↔ offer dispatched completed = none := by
  rw [commitOffset_eq, Option.map_eq_none_iff]

theorem sdiff_committable_of_none {dispatched completed : Finset ℕ}
    (h : commitOffset dispatched completed = none) (s : Finset ℕ) :
    s \ committable dispatched completed = s := by
  rw [committable_eq_safe, offer_eq_none.1 (commitOffset_eq_none.1 h), Finset.sdiff_empty]

end ResidentCrm.Kafka
