import ResidentCrm.Kafka.Consumer

/-!
# Commits are at-least-once safe

For one partition the consumer is a `LowWater.Ledger` (`Consumer.view`): the backlog's messages of
the partition wait, the dispatched ones are started, the completed ones are finished, and a
message is settled once it was forwarded, skipped or dead-lettered. A step of the consumer is a
move of every partition's ledger (`Consumer.move_view`), so the ledger's invariant holds in every
reachable state, and a commit is a retirement.

What the ledger cannot see is `Consumer.Grounded`: a report is only made of a settled message, and
a partition that is not owned has no tracker state and no backlog.
-/

namespace ResidentCrm.Kafka

open LowWater

namespace Consumer

variable {TP : Type*} [DecidableEq TP]

def offsetsOf (records : List (TP × ℕ)) (tp : TP) : List ℕ :=
  (records.filter (·.1 = tp)).map (·.2)

/-- A message was forwarded, skipped by rule or published to the DLQ. -/
def Handled (s : Consumer TP) (tp : TP) (offset : ℕ) : Prop :=
  ∃ fate, (tp, offset, fate) ∈ s.handled

/-- What one partition's ledger holds. The mark of a commit is the highest offset it covers. -/
def view (s : Consumer TP) (tp : TP) : Ledger ℕ where
  started := s.tracker.dispatched tp
  finished := s.tracker.completed tp
  waiting := offsetsOf s.backlog tp
  arrived := s.polled tp
  marks := (s.committed tp).map (· - 1)
  settled := s.Handled tp

/-- A task with a report to make has come to an outcome. -/
def ReportsHandled (s : Consumer TP) (task : Task TP) : Prop :=
  ∀ report, task.stage = .settled report → s.Handled task.tp task.offset

structure Grounded (s : Consumer TP) : Prop where
  handling : ∀ task ∈ s.handling, s.ReportsHandled task
  workers : ∀ task ∈ s.workers, s.ReportsHandled task
  backlog_owned : ∀ x ∈ s.backlog, x.1 ∈ s.assignment
  tracked_owned : ∀ tp, tp ∉ s.assignment → s.tracker.dispatched tp = ∅

/-! ## Records of one partition -/

theorem mem_offsetsOf {records : List (TP × ℕ)} {tp : TP} {o : ℕ} :
    o ∈ offsetsOf records tp ↔ (tp, o) ∈ records := by
  simp only [offsetsOf, List.mem_map, List.mem_filter, decide_eq_true_eq]
  constructor
  · rintro ⟨⟨tp', o'⟩, ⟨hx, htp⟩, ho⟩
    simp only at htp ho
    rw [← htp, ← ho]
    exact hx
  · intro hx
    exact ⟨(tp, o), ⟨hx, rfl⟩, rfl⟩

theorem offsetsOf_append (xs ys : List (TP × ℕ)) (tp : TP) :
    offsetsOf (xs ++ ys) tp = offsetsOf xs tp ++ offsetsOf ys tp := by
  simp only [offsetsOf, List.filter_append, List.map_append]

theorem offsetsOf_cons_same (xs : List (TP × ℕ)) (tp : TP) (o : ℕ) :
    offsetsOf ((tp, o) :: xs) tp = o :: offsetsOf xs tp := by
  simp [offsetsOf]

theorem offsetsOf_cons_other {tp tp' : TP} (h : tp' ≠ tp) (xs : List (TP × ℕ)) (o : ℕ) :
    offsetsOf ((tp', o) :: xs) tp = offsetsOf xs tp := by
  simp [offsetsOf, h]

theorem offsetsOf_pairwise {records : List (TP × ℕ)} (tp : TP)
    (h : records.Pairwise fun x y => x.1 = y.1 → x.2 < y.2) :
    (offsetsOf records tp).Pairwise (· < ·) := by
  refine List.Pairwise.map _ (fun x y hxy => hxy) (R := fun x y : TP × ℕ => x.2 < y.2) ?_
  refine List.Pairwise.imp_of_mem (R := fun x y : TP × ℕ => x.1 = y.1 → x.2 < y.2) ?_ (h.filter _)
  intro x y hx hy hxy
  have hx := (List.mem_filter.1 hx).2
  have hy := (List.mem_filter.1 hy).2
  simp only [decide_eq_true_eq] at hx hy
  exact hxy (hx.trans hy.symm)

theorem offsetsOf_dropBacklog_lost {partitions : Finset TP} {tp : TP} (h : tp ∈ partitions)
    (xs : List (TP × ℕ)) : offsetsOf (dropBacklog xs partitions) tp = [] := by
  refine List.eq_nil_iff_forall_not_mem.2 fun o ho => ?_
  have := (List.mem_filter.1 (mem_offsetsOf.1 ho)).2
  simp only [decide_eq_true_eq] at this
  exact this h

theorem offsetsOf_dropBacklog_kept {partitions : Finset TP} {tp : TP} (h : tp ∉ partitions)
    (xs : List (TP × ℕ)) : offsetsOf (dropBacklog xs partitions) tp = offsetsOf xs tp := by
  simp only [offsetsOf, dropBacklog, List.filter_filter]
  congr 1
  refine List.filter_congr fun x _ => ?_
  by_cases hx : x.1 = tp
  · simp [hx, h]
  · simp [hx]

/-! ## The tracker, one partition at a time -/

omit [DecidableEq TP] in
theorem handled_note {s : Consumer TP} {task : Task TP} {outcome : Option (Fate × Report)}
    {tp : TP} {o : ℕ} (h : s.Handled tp o) :
    ∃ fate, (tp, o, fate) ∈ note task outcome s.handled := by
  obtain ⟨fate, h⟩ := h
  cases outcome with
  | none => exact ⟨fate, h⟩
  | some out => exact ⟨fate, List.mem_cons_of_mem _ h⟩

omit [DecidableEq TP] in
theorem handled_of_note {s : Consumer TP} {task : Task TP} {outcome : Option (Fate × Report)}
    {report : Report} (h : stageAfter outcome = .settled report) :
    ∃ fate, (task.tp, task.offset, fate) ∈ note task outcome s.handled := by
  cases outcome with
  | none => cases h
  | some out => exact ⟨out.1, List.mem_cons_self⟩

theorem move_reportTo {l : Ledger ℕ} {t : OffsetTracker TP} {task : Task TP} {tp : TP}
    (report : Report) (hs : l.started = t.dispatched tp) (hf : l.finished = t.completed tp)
    (hsettled : tp = task.tp → l.settled task.offset) :
    Move l { l with started := (reportTo t task report).dispatched tp
                    finished := (reportTo t task report).completed tp } := by
  by_cases htp : tp = task.tp
  · subst htp
    cases report with
    | completed =>
      simp only [reportTo, OffsetTracker.dispatched_markCompleted, ← hs]
      by_cases ho : task.offset ∈ t.dispatched task.tp
      · rw [t.completed_markCompleted ho, ← hf]
        exact .finish (hsettled rfl) (hs ▸ ho)
      · rw [t.markCompleted_of_notMem ho, ← hf]
        exact .idle
    | abandoned =>
      simp only [reportTo, OffsetTracker.markAbandoned, Function.update_self, ← hs, ← hf]
      exact .abandon (hsettled rfl)
  · have hother : (reportTo t task report).dispatched tp = t.dispatched tp ∧
        (reportTo t task report).completed tp = t.completed tp := by
      cases report with
      | completed =>
        exact ⟨by rw [reportTo, OffsetTracker.dispatched_markCompleted],
          t.completed_markCompleted_of_ne htp⟩
      | abandoned => exact ⟨Function.update_of_ne htp _ _, Function.update_of_ne htp _ _⟩
    rw [hother.1, hother.2, ← hs, ← hf]
    exact .idle

/-- Taking a partition's committable offsets retires them under the mark they are committed
with. -/
theorem move_take {l : Ledger ℕ} {D C : Finset ℕ} {committed : List ℕ} (hs : l.started = D)
    (hf : l.finished = C) (hm : l.marks = committed.map (· - 1)) :
    Move l { l with
      started := D \ committable D C
      finished := C \ committable D C
      marks := ((commitOffset D C).toList ++ committed).map (· - 1) } := by
  subst hs hf
  cases h : commitOffset l.started l.finished with
  | none =>
    rw [sdiff_committable_of_none h, sdiff_committable_of_none h, Option.toList_none,
      List.nil_append, ← hm]
    exact .idle
  | some c =>
    obtain ⟨m, ho, rfl⟩ := commitOffset_eq_some.1 h
    rw [committable_eq_safe, Option.toList_some, List.singleton_append, List.map_cons, ← hm]
    exact .retire ho

/-! ## A step is a move of every ledger -/

theorem move_dispatch {s : Consumer TP} {tp' : TP} {offset : ℕ} {backlog : List (TP × ℕ)}
    (hb : s.backlog = (tp', offset) :: backlog) (tp : TP) :
    Move (s.view tp) { s.view tp with
      started := (s.tracker.markDispatched tp' offset).dispatched tp
      waiting := offsetsOf backlog tp } := by
  by_cases htp : tp = tp'
  · subst htp
    have hw : (s.view tp).waiting = offset :: offsetsOf backlog tp := by
      simp only [view, hb, offsetsOf_cons_same]
    simp only [OffsetTracker.markDispatched, Function.update_self]
    exact .start hw
  · have hw : offsetsOf backlog tp = (s.view tp).waiting := by
      simp only [view, hb, offsetsOf_cons_other (Ne.symm htp)]
    simp only [OffsetTracker.markDispatched, Function.update_of_ne htp, hw]
    exact .idle

omit [DecidableEq TP] in
theorem handled_congr {s t : Consumer TP} (h : t.handled = s.handled) (tp : TP) :
    t.Handled tp = s.Handled tp := by
  unfold Handled
  rw [h]

/-- A period ends where the tracker, the backlog and the history of a partition are cleared. -/
theorem move_reset {s t : Consumer TP} {tp : TP} (hd : t.tracker.dispatched tp = ∅)
    (hc : t.tracker.completed tp = ∅) (hb : offsetsOf t.backlog tp = []) (hp : t.polled tp = ∅)
    (hm : t.committed tp = []) (hh : t.handled = s.handled) : Move (s.view tp) (t.view tp) := by
  have : t.view tp = ⟨∅, ∅, [], ∅, [], (s.view tp).settled⟩ := by
    simp only [view, hd, hc, hb, hp, hm, List.map_nil, handled_congr hh]
  rw [this]
  exact .reset

theorem move_polled {s : Consumer TP} {records : List (TP × ℕ)} (hf : s.Fetches records)
    (tp : TP) :
    Move (s.view tp) { s.view tp with
      waiting := offsetsOf (s.backlog ++ records) tp
      arrived := s.polled tp ∪ (offsetsOf records tp).toFinset } := by
  rw [offsetsOf_append]
  refine .arrive (l := s.view tp) (offsetsOf_pairwise tp hf.1) ?_
  intro o ho y hy
  exact (hf.2 _ (mem_offsetsOf.1 ho)).2.2 y hy

/-- **A step of the consumer is a move of every partition's ledger.** -/
theorem Steps.move_view {s t : Consumer TP} {a : Action TP} (h : s.Steps a t) (hg : s.Grounded)
    (tp : TP) : Move (s.view tp) (t.view tp) := by
  cases h with
  | loopTest | dispatchDone | submits | handlerReturns | loopRaised | workerReleases
  | requestShutdown | cancelWorker => exact .idle
  | setFetching =>
    unfold Consumer.setFetching
    split <;> exact .idle
  | commitReady | drainCommit => exact move_take rfl rfl rfl
  | dispatchNext _ _ hb => exact move_dispatch hb tp
  | handles | workerSettles =>
    refine .settle (l := s.view tp) ?_
    intro o ho
    exact handled_note ho
  | handlerReports ht hr =>
    refine move_reportTo (l := s.view tp) _ rfl rfl ?_
    rintro rfl
    exact hg.handling _ ht _ hr
  | workerReports ht hr =>
    refine move_reportTo (l := s.view tp) _ rfl rfl ?_
    rintro rfl
    exact hg.workers _ (List.mem_of_getElem? ht) _ hr
  | @revoked partitions =>
    by_cases htp : tp ∈ partitions
    · exact move_reset (if_pos htp) (if_pos htp) (offsetsOf_dropBacklog_lost htp _) (if_pos htp)
        (if_pos htp) rfl
    · have : (s.onPartitionsRevoked partitions).view tp = s.view tp := by
        simp only [view, onPartitionsRevoked, OffsetTracker.forget, OffsetTracker.committableFor,
          htp, if_false, offsetsOf_dropBacklog_kept htp]
        rfl
      rw [this]
      exact .idle
  | @assigned partitions _ hdisj =>
    by_cases htp : tp ∈ partitions
    · refine move_reset (if_pos htp) (if_pos htp) ?_ (if_pos htp) (if_pos htp) rfl
      refine List.eq_nil_iff_forall_not_mem.2 fun o ho => ?_
      have := hg.backlog_owned _ (mem_offsetsOf.1 ho)
      exact Finset.disjoint_left.1 hdisj htp this
    · have : (s.onPartitionsAssigned partitions).view tp = s.view tp := by
        simp only [view, onPartitionsAssigned, OffsetTracker.forget, htp, if_false]
        rfl
      rw [this]
      exact .idle
  | polled _ hf => exact move_polled hf tp

/-! ## Reports are of settled messages, state is of owned partitions -/

omit [DecidableEq TP] in
theorem ReportsHandled.note {s t : Consumer TP} {other : Task TP}
    {outcome : Option (Fate × Report)} (hh : t.handled = Consumer.note other outcome s.handled)
    {task : Task TP} (h : s.ReportsHandled task) : t.ReportsHandled task := by
  intro report hr
  have : ∃ fate, (task.tp, task.offset, fate) ∈ Consumer.note other outcome s.handled :=
    handled_note (h report hr)
  unfold Handled
  rwa [hh]

omit [DecidableEq TP] in
theorem reportsHandled_outcome {s t : Consumer TP} {task : Task TP}
    {outcome : Option (Fate × Report)} (hh : t.handled = Consumer.note task outcome s.handled) :
    t.ReportsHandled { task with stage := stageAfter outcome } := by
  intro report hr
  have : ∃ fate, (task.tp, task.offset, fate) ∈ Consumer.note task outcome s.handled :=
    handled_of_note hr
  unfold Handled
  rwa [hh]

omit [DecidableEq TP] in
theorem reportsHandled_ending (s : Consumer TP) (task : Task TP) :
    s.ReportsHandled { task with stage := .ending } := by
  intro report hr
  cases hr

theorem dispatched_reportTo_subset (t : OffsetTracker TP) (task : Task TP) (report : Report)
    (tp : TP) : (reportTo t task report).dispatched tp ⊆ t.dispatched tp := by
  cases report with
  | completed => rw [reportTo, OffsetTracker.dispatched_markCompleted]
  | abandoned =>
    by_cases htp : tp = task.tp
    · subst htp
      simp only [reportTo, OffsetTracker.markAbandoned, Function.update_self]
      exact Finset.erase_subset _ _
    · simp only [reportTo, OffsetTracker.markAbandoned, Function.update_of_ne htp]
      exact subset_rfl

theorem Grounded.dispatch {s : Consumer TP} (hg : s.Grounded) {tp' : TP} {offset permits : ℕ}
    {backlog : List (TP × ℕ)} (hb : s.backlog = (tp', offset) :: backlog) :
    Grounded { s with
      permits := permits
      backlog := backlog
      tracker := s.tracker.markDispatched tp' offset
      handling := some { tp := tp', offset } } where
  handling := by
    rintro task ⟨⟩ report hr
    cases hr
  workers := hg.workers
  backlog_owned x hx := hg.backlog_owned x (hb ▸ List.mem_cons_of_mem _ hx)
  tracked_owned tp htp := by
    have hne : tp ≠ tp' := by
      rintro rfl
      exact htp (hg.backlog_owned (tp, offset) (hb ▸ List.mem_cons_self))
    simp only [OffsetTracker.markDispatched, Function.update_of_ne hne]
    exact hg.tracked_owned tp htp

theorem Grounded.revoked {s : Consumer TP} (hg : s.Grounded) (partitions : Finset TP) :
    (s.onPartitionsRevoked partitions).Grounded where
  handling := hg.handling
  workers := hg.workers
  backlog_owned x hx := by
    obtain ⟨hx, hlost⟩ := List.mem_filter.1 hx
    simp only [decide_eq_true_eq] at hlost
    exact Finset.mem_sdiff.2 ⟨hg.backlog_owned x hx, hlost⟩
  tracked_owned tp htp := by
    simp only [onPartitionsRevoked, Finset.mem_sdiff, not_and, not_not] at htp
    by_cases hp : tp ∈ partitions
    · exact if_pos hp
    · have hd := hg.tracked_owned tp fun h => hp (htp h)
      simp only [onPartitionsRevoked, OffsetTracker.forget, OffsetTracker.committableFor, hp,
        if_false, hd]

theorem Grounded.assigned {s : Consumer TP} (hg : s.Grounded) (partitions : Finset TP) :
    (s.onPartitionsAssigned partitions).Grounded where
  handling := hg.handling
  workers := hg.workers
  backlog_owned x hx := Finset.mem_union_left _ (hg.backlog_owned x hx)
  tracked_owned tp htp := by
    simp only [onPartitionsAssigned, Finset.mem_union, not_or] at htp
    simp only [onPartitionsAssigned, OffsetTracker.forget, htp.2, if_false]
    exact hg.tracked_owned tp htp.1

omit [DecidableEq TP] in
/-- What the tracker keeps of the partitions it had nothing of is nothing. -/
theorem Grounded.tracked {s : Consumer TP} (hg : s.Grounded) {tracker : OffsetTracker TP}
    (h : ∀ tp, tracker.dispatched tp ⊆ s.tracker.dispatched tp) :
    ∀ tp, tp ∉ s.assignment → tracker.dispatched tp = ∅ := by
  intro tp htp
  have := h tp
  rw [hg.tracked_owned tp htp] at this
  exact Finset.subset_empty.1 this

theorem Steps.grounded {s t : Consumer TP} {a : Action TP} (h : s.Steps a t) (hg : s.Grounded) :
    t.Grounded := by
  cases h with
  | loopTest | dispatchDone | loopRaised | requestShutdown => exact { __ := hg }
  | setFetching =>
    unfold Consumer.setFetching
    split <;> exact { __ := hg }
  | commitReady | drainCommit =>
    exact { __ := hg, tracked_owned := hg.tracked fun tp => Finset.sdiff_subset }
  | dispatchNext _ _ hb => exact hg.dispatch hb
  | @submits task ht _ =>
    refine { __ := hg, handling := by rintro _ ⟨⟩, workers := ?_ }
    intro w hw
    rcases List.mem_append.1 hw with hw | hw
    · exact hg.workers w hw
    · exact List.mem_singleton.1 hw ▸ hg.handling task ht
  | handles =>
    refine { __ := hg, handling := ?_, workers := ?_ }
    · rintro _ ⟨⟩
      exact reportsHandled_outcome rfl
    · intro w hw
      exact (hg.workers w hw).note rfl
  | @handlerReports task report ht hr =>
    refine { __ := hg, handling := ?_, tracked_owned := ?_ }
    · rintro _ ⟨⟩
      exact reportsHandled_ending s task
    · exact hg.tracked (dispatched_reportTo_subset s.tracker task report)
  | handlerReturns => exact { __ := hg, handling := by rintro _ ⟨⟩ }
  | revoked => exact hg.revoked _
  | assigned => exact hg.assigned _
  | polled _ hf =>
    refine { __ := hg, backlog_owned := ?_ }
    intro x hx
    rcases List.mem_append.1 hx with hx | hx
    · exact hg.backlog_owned x hx
    · exact (hf.2 x hx).1
  | workerSettles =>
    refine { __ := hg, handling := ?_, workers := ?_ }
    · intro task ht
      exact (hg.handling task ht).note rfl
    · intro w hw
      rcases List.mem_or_eq_of_mem_set hw with hw | rfl
      · exact (hg.workers w hw).note rfl
      · exact reportsHandled_outcome rfl
  | @workerReports worker task report ht hr =>
    refine { __ := hg, workers := ?_, tracked_owned := ?_ }
    · intro w hw
      rcases List.mem_or_eq_of_mem_set hw with hw | rfl
      · exact hg.workers w hw
      · exact reportsHandled_ending s task
    · exact hg.tracked (dispatched_reportTo_subset s.tracker task report)
  | workerReleases | cancelWorker =>
    refine { __ := hg, workers := ?_ }
    intro w hw
    exact hg.workers w (List.mem_of_mem_eraseIdx hw)

/-! ## The run -/

structure Ok (s : Consumer TP) : Prop where
  grounded : s.Grounded
  ledgers : ∀ tp, (s.view tp).Ok

theorem ok_init (maxConcurrent : ℕ) : (init maxConcurrent : Consumer TP).Ok where
  grounded :=
    { handling := by rintro _ ⟨⟩
      workers := by rintro _ ⟨⟩
      backlog_owned := by rintro _ ⟨⟩
      tracked_owned := fun _ _ => rfl }
  ledgers _ := Ledger.Ok.empty _

theorem Ok.step {s t : Consumer TP} {a : Action TP} (h : s.Ok) (hs : s.Steps a t) : t.Ok where
  grounded := hs.grounded h.grounded
  ledgers tp := (h.ledgers tp).move (hs.move_view h.grounded tp)

theorem ok_of_reach {maxConcurrent : ℕ} {C : Consumer TP → Action TP → Prop} {s : Consumer TP}
    (h : (machine TP maxConcurrent).Reach C s) : s.Ok := by
  refine h.invariant ?_ ?_
  · rintro _ rfl
    exact ok_init maxConcurrent
  · intro s a t hs _ ht
    exact hs.step (Steps.of_step ht)

/-- A position committed is one above the mark of a retirement. -/
theorem commitsOf_eq_some {s : Consumer TP} {a : Action TP} {tp : TP} {c : ℕ}
    (h : s.commitsOf a tp = some c) :
    ∃ m, offer (s.view tp).started (s.view tp).finished = some m ∧ c = m + 1 := by
  suffices hc : commitOffset (s.tracker.dispatched tp) (s.tracker.completed tp) = some c from
    commitOffset_eq_some.1 hc
  cases a with
  | commitReady | drainCommit =>
    simp only [commitsOf, OffsetTracker.takeCommittable] at h
    exact h
  | revoked partitions ok =>
    simp only [commitsOf, OffsetTracker.committableFor] at h
    exact (Option.ite_none_right_eq_some.1 h).2
  | _ => cases h

theorem Ok.completed_subset {s : Consumer TP} (h : s.Ok) (tp : TP) :
    s.tracker.completed tp ⊆ s.tracker.dispatched tp := (h.ledgers tp).finished_started

theorem Ok.commit_owned {s : Consumer TP} (h : s.Ok) {a : Action TP} {tp : TP} {c : ℕ}
    (hc : s.commitsOf a tp = some c) : tp ∈ s.assignment := by
  obtain ⟨m, ho, -⟩ := commitsOf_eq_some hc
  have hm : m ∈ s.tracker.dispatched tp :=
    h.completed_subset tp (safe_subset (offer_eq_some.1 ho).1)
  by_contra htp
  rw [h.grounded.tracked_owned tp htp] at hm
  exact Finset.notMem_empty _ hm

theorem Ok.commit_covers {s : Consumer TP} (h : s.Ok) {a : Action TP} {tp : TP} {c : ℕ}
    (hc : s.commitsOf a tp = some c) : ∀ o ∈ s.polled tp, o < c → s.Handled tp o := by
  obtain ⟨m, ho, rfl⟩ := commitsOf_eq_some hc
  intro o hop hom
  exact (h.ledgers tp).mark_covers ho o hop (Nat.lt_succ_iff.1 hom)

theorem Ok.commit_increases {s : Consumer TP} (h : s.Ok) {a : Action TP} {tp : TP} {c : ℕ}
    (hc : s.commitsOf a tp = some c) : ∀ c' ∈ s.committed tp, c' < c := by
  obtain ⟨m, ho, rfl⟩ := commitsOf_eq_some hc
  intro c' hc'
  have := (h.ledgers tp).mark_above ho (c' - 1) (List.mem_map_of_mem hc')
  omega

/-- **At-least-once safety.** In every reachable state the completed offsets are dispatched, and
whatever step comes next, a position it commits belongs to an owned partition, every message of
the period below it was handled, and it is above every position committed in the period. -/
theorem commits_are_safe {maxConcurrent : ℕ} {s : Consumer TP}
    (h : (machine TP maxConcurrent).Reachable s) :
    (∀ tp, s.tracker.completed tp ⊆ s.tracker.dispatched tp) ∧
      ∀ a tp c, s.commitsOf a tp = some c →
        tp ∈ s.assignment ∧ (∀ o ∈ s.polled tp, o < c → s.Handled tp o) ∧
          ∀ c' ∈ s.committed tp, c' < c := by
  have hok := ok_of_reach h
  refine ⟨hok.completed_subset, ?_⟩
  intro a tp c hc
  exact ⟨hok.commit_owned hc, hok.commit_covers hc, hok.commit_increases hc⟩

/-- Offsets 5 and 6 are dispatched together and 6 finishes first; 5 times out into the DLQ. -/
def outOfOrder : List (Action ℕ) :=
  [.loopTest, .commitReady true, .dispatchDone, .setFetching, .assigned {0},
   .polled [(0, 5), (0, 6)], .dispatchNext, .handles .submitted, .dispatchNext,
   .handles .submitted, .dispatchDone, .workerSettles 1 .forwarded, .workerReports 1,
   .loopTest, .commitReady true, .dispatchDone, .workerSettles 0 (.timeout true),
   .workerReports 0, .setFetching, .polled [(0, 9)], .dispatchDone, .loopTest]

theorem commits_are_safe_outOfOrder :
    ∃ s, (machine ℕ 2).Reachable s ∧ s.commitsOf (.commitReady true) 0 = some 7 ∧
      s.polled 0 = {5, 6, 9} ∧ ∀ o ∈ s.polled 0, o < 7 → s.Handled 0 o := by
  obtain ⟨s, hs, hp⟩ := Machine.exists_reachable_run (M := machine ℕ 2) rfl outOfOrder
    (fun s => decide (s.commitsOf (.commitReady true) 0 = some 7 ∧ s.polled 0 = {5, 6, 9}))
    (by decide)
  obtain ⟨hc, hpolled⟩ := of_decide_eq_true hp
  exact ⟨s, hs, hc, hpolled, ((commits_are_safe hs).2 _ 0 7 hc).2.1⟩

end Consumer

end ResidentCrm.Kafka
