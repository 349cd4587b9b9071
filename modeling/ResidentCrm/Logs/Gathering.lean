import ResidentCrm.Lib.Machine
import ResidentCrm.Logs.Coverage

/-!
# The reads of a fetch, gathered

The fan-out of `read_all`: the pool finishes its reads at any time, `as_completed` yields those that
are done until the clock passes the deadline, and then the reads that are not done are counted. A
read that is done by then and was not gathered is counted on neither side.
-/

namespace ResidentCrm.Logs.Gathering

universe u v

/-! ## The fan-out -/

/-- Where `read_all` is. -/
inductive Stage where
  | gathering
  /-- The deadline has passed. -/
  | counting
  | joining
deriving DecidableEq, Repr

/-- The reads are numbered as their targets are. -/
structure State where
  stage : Stage := .gathering
  done : List (ℕ × Fate) := []
  gathered : List (ℕ × Fate) := []
  /-- The reads that were not done when they were counted. -/
  unfinished : Option ℕ := none
deriving DecidableEq, Repr

inductive Action where
  /-- A read of the pool ends. -/
  | finish (i : ℕ) (fate : Fate)
  /-- `as_completed` yields a future before the deadline. -/
  | gather (i : ℕ)
  /-- It yields one at the deadline or after it. -/
  | late (i : ℕ)
  /-- It raises `FuturesTimeoutError`. -/
  | expire
  /-- It has yielded every future. -/
  | exhaust
  | count
deriving DecidableEq, Repr

def State.isDone (s : State) (i : ℕ) : Bool := s.done.any (·.1 == i)

def State.isGathered (s : State) (i : ℕ) : Bool := s.gathered.any (·.1 == i)

def step (total : ℕ) (s : State) : Action → Option State
  | .finish i fate =>
    if i < total ∧ s.isDone i = false then some { s with done := (i, fate) :: s.done } else none
  | .gather i =>
    if s.stage = .gathering ∧ s.isGathered i = false then
      (s.done.find? (·.1 == i)).map fun read => { s with gathered := s.gathered ++ [read] }
    else none
  | .late i =>
    if s.stage = .gathering ∧ s.isDone i = true ∧ s.isGathered i = false then
      some { s with stage := .counting }
    else none
  | .expire =>
    if s.stage = .gathering ∧ s.gathered.length < total then some { s with stage := .counting }
    else none
  | .exhaust =>
    if s.stage = .gathering ∧ s.gathered.length = total then some { s with stage := .joining }
    else none
  | .count =>
    if s.stage = .counting then
      some { s with
        stage := .joining
        unfinished := some ((List.range total).filter fun i => !s.isDone i).length }
    else none

def fanOut (total : ℕ) : Machine State Action where
  start := (· = {})
  step := step total

/-- The unfinished are counted when every read that is done has been gathered. -/
def CountsInTime (s : State) (a : Action) : Prop :=
  a = .count → ∀ read ∈ s.done, read ∈ s.gathered

instance : ∀ s a, Decidable (CountsInTime s a) := fun s a =>
  inferInstanceAs (Decidable (a = .count → ∀ read ∈ s.done, read ∈ s.gathered))

/-- What holds between any two steps. -/
structure Inv (total : ℕ) (s : State) : Prop where
  done_nodup : (s.done.map Prod.fst).Nodup
  done_lt : ∀ read ∈ s.done, read.1 < total
  gathered_nodup : (s.gathered.map Prod.fst).Nodup
  gathered_done : ∀ read ∈ s.gathered, read ∈ s.done
  unfinished_none : s.stage ≠ .joining → s.unfinished = none
  gathered_all : s.stage = .joining → s.unfinished = none → s.gathered.length = total

namespace Inv

variable {total : ℕ} {s t : State}

theorem start : Inv total {} where
  done_nodup := .nil
  done_lt := by simp
  gathered_nodup := .nil
  gathered_done := by simp
  unfinished_none _ := rfl
  gathered_all h := nomatch h

theorem step (h : Inv total s) {a : Action} (ht : step total s a = some t) : Inv total t := by
  cases a with
  | finish i fate =>
    simp only [Gathering.step, Option.ite_none_right_eq_some, Option.some.injEq] at ht
    obtain ⟨⟨hi, hnew⟩, rfl⟩ := ht
    have hnot : ∀ read ∈ s.done, read.1 ≠ i := by
      simpa [State.isDone] using hnew
    refine { h with
      done_nodup := ?_
      done_lt := ?_
      gathered_done := fun read hread => List.mem_cons_of_mem _ (h.gathered_done read hread) }
    · rw [List.map_cons, List.nodup_cons]
      refine ⟨fun hmem => ?_, h.done_nodup⟩
      obtain ⟨read, hread, heq⟩ := List.mem_map.1 hmem
      exact hnot read hread heq
    · simpa using ⟨hi, fun i fate hread => h.done_lt (i, fate) hread⟩
  | gather i =>
    simp only [Gathering.step, Option.ite_none_right_eq_some, Option.map_eq_some_iff] at ht
    obtain ⟨⟨hstage, hnew⟩, read, hread, rfl⟩ := ht
    have hnot : ∀ other ∈ s.gathered, other.1 ≠ i := by
      simpa [State.isGathered] using hnew
    have hfst : read.1 = i := by simpa using List.find?_some hread
    refine { h with
      gathered_nodup := ?_
      gathered_done := ?_
      gathered_all := fun hjoin => absurd (hstage.symm.trans hjoin) (by decide) }
    · rw [List.map_append, List.map_singleton, List.nodup_append]
      refine ⟨h.gathered_nodup, by simp, ?_⟩
      rintro j hj k hk rfl
      obtain ⟨other, hother, heq⟩ := List.mem_map.1 hj
      rw [List.mem_singleton] at hk
      exact hnot other hother (heq.trans (hk.trans hfst))
    · intro other hother
      rcases List.mem_append.1 hother with hother | hother
      · exact h.gathered_done other hother
      · rw [List.mem_singleton.1 hother]
        exact List.mem_of_find?_eq_some hread
  | late i =>
    simp only [Gathering.step, Option.ite_none_right_eq_some, Option.some.injEq] at ht
    obtain ⟨⟨hstage, -⟩, rfl⟩ := ht
    exact { h with
      unfinished_none := fun _ => h.unfinished_none (by simp [hstage])
      gathered_all := fun hjoin => nomatch hjoin }
  | expire =>
    simp only [Gathering.step, Option.ite_none_right_eq_some, Option.some.injEq] at ht
    obtain ⟨⟨hstage, -⟩, rfl⟩ := ht
    exact { h with
      unfinished_none := fun _ => h.unfinished_none (by simp [hstage])
      gathered_all := fun hjoin => nomatch hjoin }
  | exhaust =>
    simp only [Gathering.step, Option.ite_none_right_eq_some, Option.some.injEq] at ht
    obtain ⟨⟨-, hall⟩, rfl⟩ := ht
    exact { h with
      unfinished_none := fun hne => absurd rfl hne
      gathered_all := fun _ _ => hall }
  | count =>
    simp only [Gathering.step, Option.ite_none_right_eq_some, Option.some.injEq] at ht
    obtain ⟨-, rfl⟩ := ht
    exact { h with
      unfinished_none := fun hne => absurd rfl hne
      gathered_all := fun _ hnone => nomatch hnone }

end Inv

/-! ## The count -/

/-- The reads that were gathered and those that were counted are all there are. -/
def Balanced (total : ℕ) (s : State) : Prop :=
  s.stage = .joining → s.gathered.length + s.unfinished.getD 0 = total

/-- Reads that are done and reads that are not. -/
theorem Inv.length_unfinished {total : ℕ} {s : State} (h : Inv total s) :
    s.done.length + ((List.range total).filter fun i => !s.isDone i).length = total := by
  have hperm : (s.done.map Prod.fst).Perm ((List.range total).filter s.isDone) := by
    refine (List.perm_ext_iff_of_nodup h.done_nodup (List.nodup_range.filter _)).2 fun i => ?_
    rw [List.mem_filter, List.mem_range, List.mem_map]
    constructor
    · rintro ⟨read, hread, rfl⟩
      exact ⟨h.done_lt read hread, List.any_eq_true.2 ⟨read, hread, beq_self_eq_true _⟩⟩
    · rintro ⟨-, hdone⟩
      obtain ⟨read, hread, heq⟩ := List.any_eq_true.1 hdone
      exact ⟨read, hread, eq_of_beq heq⟩
  have hsplit := List.length_eq_length_filter_add (l := List.range total) s.isDone
  have hdone := hperm.length_eq
  rw [List.length_map] at hdone
  rw [List.length_range] at hsplit
  omega

/-- The done reads are as many as the gathered when none of them is left. -/
theorem Inv.length_gathered_iff {total : ℕ} {s : State} (h : Inv total s) :
    s.gathered.length = s.done.length ↔ ∀ read ∈ s.done, read ∈ s.gathered := by
  have hsub : s.gathered.Subperm s.done :=
    List.subperm_of_subset h.gathered_nodup.of_map h.gathered_done
  constructor
  · intro hlength read hread
    exact (hsub.perm_of_length_le hlength.ge).mem_iff.2 hread
  · intro hall
    exact le_antisymm hsub.length_le
      (List.subperm_of_subset h.done_nodup.of_map hall).length_le

/-- A step keeps the balance exactly where it counts in time. -/
theorem balanced_step {total : ℕ} {s t : State} {a : Action} (h : Inv total s)
    (ht : step total s a = some t) : Balanced total t ↔ Balanced total s ∧ CountsInTime s a := by
  have hinv := h.step ht
  cases a with
  | finish i fate =>
    simp only [step, Option.ite_none_right_eq_some, Option.some.injEq] at ht
    obtain ⟨-, rfl⟩ := ht
    exact (and_iff_left (by simp [CountsInTime])).symm
  | gather i =>
    simp only [step, Option.ite_none_right_eq_some, Option.map_eq_some_iff] at ht
    obtain ⟨⟨hstage, -⟩, read, -, rfl⟩ := ht
    simp [Balanced, CountsInTime, hstage]
  | late i =>
    simp only [step, Option.ite_none_right_eq_some, Option.some.injEq] at ht
    obtain ⟨⟨hstage, -⟩, rfl⟩ := ht
    simp [Balanced, CountsInTime, hstage]
  | expire =>
    simp only [step, Option.ite_none_right_eq_some, Option.some.injEq] at ht
    obtain ⟨⟨hstage, -⟩, rfl⟩ := ht
    simp [Balanced, CountsInTime, hstage]
  | exhaust =>
    simp only [step, Option.ite_none_right_eq_some, Option.some.injEq] at ht
    obtain ⟨⟨hstage, hall⟩, rfl⟩ := ht
    have hnone := h.unfinished_none (by simp [hstage])
    simp [Balanced, CountsInTime, hstage, hnone, hall]
  | count =>
    simp only [step, Option.ite_none_right_eq_some, Option.some.injEq] at ht
    obtain ⟨hstage, rfl⟩ := ht
    have hcount := h.length_unfinished
    have hgathered := h.length_gathered_iff
    simp only [Balanced, CountsInTime, hstage, reduceCtorEq, false_implies, true_and, true_implies,
      Option.getD_some, ← hgathered]
    omega

theorem balanced_iff {total : ℕ} {as : List Action} {t : State}
    (h : (fanOut total).run {} as = some t) :
    Balanced total t ↔ (fanOut total).Meets CountsInTime {} as := by
  rw [Machine.keeps_iff_meets (I := Inv total) (P := Balanced total) (C := CountsInTime)
    (fun _ _ _ hs ht => hs.step ht) (fun _ _ _ hs ht => balanced_step hs ht) Inv.start h]
  exact and_iff_right fun hjoin => nomatch hjoin

theorem inv_of_run {total : ℕ} : ∀ {as : List Action} {s t : State}, Inv total s →
    (fanOut total).run s as = some t → Inv total t
  | [], s, t, hs, h => by
    obtain rfl : s = t := Option.some.inj h
    exact hs
  | a :: as, s, t, hs, h => by
    obtain ⟨u, hu, ht⟩ := Option.bind_eq_some_iff.1 h
    exact inv_of_run (hs.step hu) ht

/-! ## The outcome -/

section

variable (targets : List PodTarget)

/-- What `as_completed` yielded. -/
def State.completed (s : State) : List (PodTarget × Fate) :=
  s.gathered.filterMap fun read => targets[read.1]?.map fun target => (target, read.2)

theorem filterMap_range {α : Type u} (l : List α) : (List.range l.length).filterMap (l[·]?) = l := by
  induction l with
  | nil => rfl
  | cons x l ih =>
    rw [List.length_cons, List.range_succ_eq_map, List.filterMap_cons, List.filterMap_map]
    exact congrArg (x :: ·) ih

theorem State.completed_fst (s : State) :
    (s.completed targets).map Prod.fst = (s.gathered.map Prod.fst).filterMap (targets[·]?) := by
  rw [State.completed, List.map_filterMap, List.filterMap_map]
  refine List.filterMap_congr fun read _ => ?_
  cases htarget : targets[read.1]? with
  | none => simp [htarget]
  | some target => simp [htarget]

variable {targets}

theorem Inv.subperm_range {s : State} (h : Inv targets.length s) :
    (s.gathered.map Prod.fst).Subperm (List.range targets.length) :=
  List.subperm_of_subset h.gathered_nodup fun i hi => by
    obtain ⟨read, hread, rfl⟩ := List.mem_map.1 hi
    exact List.mem_range.2 (h.done_lt read (h.gathered_done read hread))

theorem Inv.length_completed {s : State} (h : Inv targets.length s) :
    (s.completed targets).length = s.gathered.length := by
  rw [State.completed, List.length_filterMap_eq_countP, List.countP_eq_length]
  intro read hread
  rw [List.getElem?_eq_getElem (h.done_lt read (h.gathered_done read hread))]
  rfl

/-- What the pool made of the reads, once it is done with. -/
def poolRun {s : State} (h : Inv targets.length s) (hjoin : s.stage = .joining) :
    PoolRun targets where
  completed := s.completed targets
  timedOut := s.unfinished.isSome
  unfinished := s.unfinished.getD 0
  submitted := by
    obtain ⟨l, hperm, hsub⟩ := h.subperm_range
    rw [State.completed_fst]
    nth_rewrite 2 [← filterMap_range targets]
    exact ⟨_, hperm.filterMap _, hsub.filterMap _⟩
  awaited hnone := by
    have hall : s.gathered.length = targets.length := h.gathered_all hjoin (by simpa using hnone)
    have hperm := h.subperm_range.perm_of_length_le (by simp [hall])
    rw [State.completed_fst]
    nth_rewrite 2 [← filterMap_range targets]
    exact hperm.filterMap _

variable {σ : Type u} {ρ : Type v} (settings : Settings σ ρ) (transport : Transport)
  (window : TimeWindow)

/-- Every target is read or stated as unread, and what was read is what is returned. -/
structure AccountsFor (run : PoolRun targets) (outcome : RetrievalOutcome ρ) : Prop where
  total : outcome.podsQueried + (if run.timedOut then run.unfinished else 0) = targets.length
  stated : outcome.gaps =
    (if run.timedOut then [budgetExpired settings.budget run.unfinished] else []) ++
      (run.returned.map (readOne settings transport window)).flatMap PodFetchOutcome.gaps
  queried : outcome.podsQueried = run.completed.length
  failed : outcome.podsFailed ≤ outcome.podsQueried
  records : outcome.records.Perm
    (((run.returned.map (readOne settings transport window)).flatMap PodFetchOutcome.records).filter
      fun r => !window.excludes settings.clock (settings.timestamp r.parsed))

theorem length_returned (run : PoolRun targets) :
    (run.completed.filter (·.2 = .raised)).length + run.returned.length = run.completed.length := by
  rw [PoolRun.returned]
  induction run.completed with
  | nil => rfl
  | cons read completed ih =>
    obtain ⟨target, fate⟩ := read
    cases fate with
    | returned => simp [← ih, Nat.add_assoc]
    | raised => simp [← ih, Nat.add_right_comm]

/-- What `read_all` comes to, whatever the pool does. -/
theorem accountsFor_iff_total (run : PoolRun targets) :
    AccountsFor settings transport window run (readAll settings transport window run) ↔
      run.completed.length + (if run.timedOut then run.unfinished else 0) = targets.length := by
  obtain ⟨hrecords, hgaps, hqueried, hfailed⟩ :=
    foldl_add settings (run.returned.map (readOne settings transport window))
      (RetrievalOutcome.start settings run)
  have hall : (readAll settings transport window run).podsQueried = run.completed.length := by
    rw [← length_returned run]
    exact hqueried.trans (by rw [List.length_map]; rfl)
  constructor
  · intro h
    rw [← hall]
    exact h.total
  · intro htotal
    refine ⟨hall ▸ htotal, hgaps, hall, ?_, ?_⟩
    · change RetrievalOutcome.podsFailed (joined settings transport window run) ≤
        RetrievalOutcome.podsQueried (joined settings transport window run)
      rw [joined, hqueried, hfailed]
      exact Nat.add_le_add_left (List.length_filter_le _ _) _
    · refine List.Perm.filter _ ((List.perm_insertionSort _ _).trans (.of_eq ?_))
      rw [joined, hrecords]
      rfl

/-- **Every target is accounted for** exactly in the runs that count the unfinished when all that is
done is gathered. -/
theorem accountsFor_iff {as : List Action} {t : State}
    (hrun : (fanOut targets.length).run {} as = some t) (hjoin : t.stage = .joining) :
    AccountsFor settings transport window (poolRun (inv_of_run .start hrun) hjoin)
        (readAll settings transport window (poolRun (inv_of_run .start hrun) hjoin)) ↔
      (fanOut targets.length).Meets CountsInTime {} as := by
  have hinv : Inv targets.length t := inv_of_run .start hrun
  rw [accountsFor_iff_total, ← balanced_iff hrun, Balanced]
  have hcompleted : (poolRun hinv hjoin).completed.length = t.gathered.length :=
    hinv.length_completed
  have hunread : (if (poolRun hinv hjoin).timedOut then (poolRun hinv hjoin).unfinished else 0) =
      t.unfinished.getD 0 := by
    change (if t.unfinished.isSome then t.unfinished.getD 0 else 0) = _
    cases t.unfinished <;> rfl
  rw [hcompleted, hunread]
  exact ⟨fun h _ => h, fun h => h hjoin⟩

end

/-! ## A read that ends at the deadline -/

def twoReplicas : List PodTarget :=
  [⟨"enu".toList, "bio-1".toList, "app".toList, 0, none⟩,
    ⟨"enu".toList, "bio-2".toList, "app".toList, 0, none⟩]

/-- Both reads end; the clock passes the deadline before the second is yielded. -/
def pastTheDeadline : List Action :=
  [.finish 0 .returned, .finish 1 .returned, .gather 0, .late 1, .count]

def afterTheDeadline : State where
  stage := .joining
  done := [(1, .returned), (0, .returned)]
  gathered := [(0, .returned)]
  unfinished := some 0

theorem run_pastTheDeadline :
    (fanOut twoReplicas.length).run {} pastTheDeadline = some afterTheDeadline := by decide

theorem pastTheDeadline_accounts :
    AccountsFor plainSettings oneForbidden rejectedAtFive
        (poolRun (inv_of_run .start run_pastTheDeadline) rfl)
        (readAll plainSettings oneForbidden rejectedAtFive
          (poolRun (inv_of_run .start run_pastTheDeadline) rfl)) ↔
      (fanOut twoReplicas.length).Meets CountsInTime {} pastTheDeadline :=
  accountsFor_iff plainSettings oneForbidden rejectedAtFive run_pastTheDeadline rfl

/-- The second read is neither queried nor stated as unread. -/
theorem done_read_counted_nowhere :
    ¬AccountsFor plainSettings oneForbidden rejectedAtFive
      (poolRun (inv_of_run .start run_pastTheDeadline) rfl)
      (readAll plainSettings oneForbidden rejectedAtFive
        (poolRun (inv_of_run .start run_pastTheDeadline) rfl)) := by
  rw [accountsFor_iff_total]
  decide

end ResidentCrm.Logs.Gathering
