import ResidentCrm.Kafka.CommitSafety

/-!
# What becomes of a commit that raises

`take_committable` retires the offsets it offers before `consumer.commit` is called, and
`_commit_ready_offsets` swallows what the commit raises. The positions are gone from the tracker
then: until a further message of the partition is reported, nothing is offered for it, by the poll
loop, on revocation or by the drain (`Consumer.nothing_offered`).
-/

namespace ResidentCrm.Kafka

open LowWater

namespace Consumer

variable {TP : Type*} [DecidableEq TP]

/-- The task whose completion or abandonment an action reports. -/
def reporter (s : Consumer TP) : Action TP → Option (Task TP)
  | .handlerReports => s.handling
  | .workerReports worker => s.workers[worker]?
  | _ => none

/-- No message of the partition is reported. -/
def Quiet (tp : TP) (s : Consumer TP) (a : Action TP) : Prop :=
  ∀ task ∈ s.reporter a, task.tp ≠ tp

/-- A commit that raised is a commit outside a revocation: the partition stays owned. -/
def Raises (a : Action TP) : Prop := a = .commitReady false ∨ a = .drainCommit false

/-- A position at or above `c` is offered for `tp` after `t`, by a `take_committable`, on a
revocation or by the drain, with no further message of `tp` reported. -/
def OfferedAgain (maxConcurrent : ℕ) (t : Consumer TP) (tp : TP) (c : ℕ) : Prop :=
  ∃ u b c', (machine TP maxConcurrent).Later (Quiet tp) t u ∧ u.commitsOf b tp = some c' ∧ c ≤ c'

def Dry (s : Consumer TP) (tp : TP) : Prop :=
  offer (s.view tp).started (s.view tp).finished = none

/-! ## Quiet steps leave nothing to offer -/

theorem still_reportTo {t : OffsetTracker TP} {task : Task TP} {tp : TP} (h : task.tp ≠ tp)
    (report : Report) :
    (reportTo t task report).dispatched tp = t.dispatched tp ∧
      (reportTo t task report).completed tp = t.completed tp := by
  cases report with
  | completed =>
    exact ⟨by rw [reportTo, OffsetTracker.dispatched_markCompleted],
      t.completed_markCompleted_of_ne h.symm⟩
  | abandoned => exact ⟨Function.update_of_ne h.symm _ _, Function.update_of_ne h.symm _ _⟩

theorem still_of_subset {l l' : Ledger ℕ} (hs : l.started ⊆ l'.started)
    (hf : l'.finished ⊆ l.finished) : Still l l' :=
  ⟨hf, .inl (Finset.sdiff_subset_sdiff hs hf)⟩

theorem still_take {l l' : Ledger ℕ}
    (hs : l'.started = l.started \ committable l.started l.finished)
    (hf : l'.finished = l.finished \ committable l.started l.finished) : Still l l' := by
  unfold Still
  rw [hs, hf, committable_eq_safe]
  refine ⟨Finset.sdiff_subset, .inl ?_⟩
  intro x hx
  obtain ⟨hxs, hxf⟩ := Finset.mem_sdiff.1 hx
  have hsafe : x ∉ safe l.started l.finished := fun h => hxf (safe_subset h)
  simp only [Finset.mem_sdiff, hxs, hxf, hsafe, not_false_eq_true, false_and, and_self]

theorem subset_markDispatched (t : OffsetTracker TP) (tp' tp : TP) (offset : ℕ) :
    t.dispatched tp ⊆ (t.markDispatched tp' offset).dispatched tp := by
  by_cases htp : tp = tp'
  · subst htp
    simp only [OffsetTracker.markDispatched, Function.update_self]
    exact Finset.subset_insert _ _
  · simp only [OffsetTracker.markDispatched, Function.update_of_ne htp, subset_rfl]

/-- A step that reports nothing of a partition finishes nothing of it. -/
theorem Steps.still {s t : Consumer TP} {a : Action TP} (h : s.Steps a t) {tp : TP}
    (hq : Quiet tp s a) : Still (s.view tp) (t.view tp) := by
  cases h with
  | loopTest | dispatchDone | submits | handles | handlerReturns | polled | loopRaised
  | workerSettles | workerReleases | requestShutdown | cancelWorker =>
    exact still_of_subset subset_rfl subset_rfl
  | setFetching =>
    unfold Consumer.setFetching
    split <;> exact still_of_subset subset_rfl subset_rfl
  | commitReady | drainCommit => exact still_take rfl rfl
  | dispatchNext => exact still_of_subset (subset_markDispatched s.tracker _ tp _) subset_rfl
  | handlerReports ht _ =>
    obtain ⟨hd, hc⟩ := still_reportTo (t := s.tracker) (hq _ ht) _
    exact still_of_subset hd.symm.subset hc.subset
  | workerReports ht _ =>
    obtain ⟨hd, hc⟩ := still_reportTo (t := s.tracker) (hq _ ht) _
    exact still_of_subset hd.symm.subset hc.subset
  | @revoked partitions =>
    by_cases htp : tp ∈ partitions
    · have hd : ((s.onPartitionsRevoked partitions).view tp).finished = ∅ := if_pos htp
      exact ⟨hd ▸ Finset.empty_subset _, .inr hd⟩
    · refine still_of_subset (Eq.subset ?_) (Eq.subset ?_) <;>
        simp only [view, onPartitionsRevoked, OffsetTracker.forget, OffsetTracker.committableFor,
          htp, if_false]
  | @assigned partitions =>
    by_cases htp : tp ∈ partitions
    · have hd : ((s.onPartitionsAssigned partitions).view tp).finished = ∅ := if_pos htp
      exact ⟨hd ▸ Finset.empty_subset _, .inr hd⟩
    · refine still_of_subset (Eq.subset ?_) (Eq.subset ?_) <;>
        simp only [view, onPartitionsAssigned, OffsetTracker.forget, htp, if_false]

theorem Steps.dry_of_raises {s t : Consumer TP} {a : Action TP} (h : s.Steps a t)
    (ha : Raises a) (tp : TP) : t.Dry tp := by
  unfold Dry
  rcases ha with rfl | rfl
  · cases h
    simp only [view, commitReadyOffsets, OffsetTracker.takeCommittable, committable_eq_safe]
    exact offer_retire
  · cases h
    simp only [view, commitReadyOffsets, OffsetTracker.takeCommittable, committable_eq_safe]
    exact offer_retire

/-- **After a commit that raised nothing is offered** for any partition, until one of its messages
is reported. -/
theorem nothing_offered {maxConcurrent : ℕ} {s t u : Consumer TP} {a : Action TP} {tp : TP}
    (ha : Raises a) (hst : s.step a = some t)
    (htu : (machine TP maxConcurrent).Later (Quiet tp) t u) (b : Action TP) :
    u.commitsOf b tp = none := by
  have hu : u.Dry tp := by
    refine htu.relate (R := fun _ u => u.Dry tp) ((Steps.of_step hst).dry_of_raises ha tp) ?_
    intro v b w _ hv hq hw
    exact ((Steps.of_step hw).still hq).offer hv
  cases hb : u.commitsOf b tp with
  | none => rfl
  | some c =>
    obtain ⟨m, hm, -⟩ := commitsOf_eq_some hb
    rw [hu] at hm
    cases hm

/-- **A commit that raised is never offered again** by the offsets it carried: whatever was
committed and from whatever state, no run in which no further message of the partition is reported
offers a position as high. -/
theorem raised_commit_not_offered_again {maxConcurrent : ℕ} {s t : Consumer TP} {a : Action TP}
    (ha : Raises a) (hst : s.step a = some t) (tp : TP) (c : ℕ) :
    ¬ OfferedAgain maxConcurrent t tp c := by
  rintro ⟨u, b, c', htu, hb, -⟩
  rw [nothing_offered ha hst htu b] at hb
  cases hb

theorem outOfOrder_reached :
    ∃ s, (machine ℕ 2).Reachable s ∧ s.commitsOf (.commitReady false) 0 = some 7 ∧
      s.pc = .commit ∧ 0 ∈ s.assignment := by
  obtain ⟨s, hs, hp⟩ := Machine.exists_reachable_run (M := machine ℕ 2) rfl outOfOrder
    (fun s => decide (s.commitsOf (.commitReady false) 0 = some 7 ∧ s.pc = .commit ∧
      0 ∈ s.assignment))
    (by decide)
  exact ⟨s, hs, of_decide_eq_true hp⟩

theorem raised_commit_not_offered_again_outOfOrder :
    ∃ s t : Consumer ℕ, (machine ℕ 2).Reachable s ∧ s.commitsOf (.commitReady false) 0 = some 7 ∧
      s.step (.commitReady false) = some t ∧ ¬ OfferedAgain 2 t 0 7 := by
  obtain ⟨s, hs, hc, hpc, -⟩ := outOfOrder_reached
  have hst : s.step (.commitReady false) = some { s.commitReadyOffsets with pc := .dispatch false } :=
    if_pos hpc
  exact ⟨s, _, hs, hc, hst, raised_commit_not_offered_again (.inl rfl) hst 0 7⟩

/-- A commit of position 7 raises on a partition that stays owned, and 7 is not offered again. -/
theorem raised_commit_is_not_retried :
    ¬ ∀ (s t : Consumer ℕ) (tp c : ℕ), (machine ℕ 2).Reachable s →
      s.commitsOf (.commitReady false) tp = some c → s.step (.commitReady false) = some t →
      tp ∈ t.assignment → OfferedAgain 2 t tp c := by
  intro h
  obtain ⟨s, hs, hc, hpc, hown⟩ := outOfOrder_reached
  obtain ⟨u, b, c', htu, hb, -⟩ := h s _ 0 7 hs hc (if_pos hpc) hown
  rw [nothing_offered (.inl rfl) (if_pos hpc) htu b] at hb
  cases hb

end Consumer

end ResidentCrm.Kafka
