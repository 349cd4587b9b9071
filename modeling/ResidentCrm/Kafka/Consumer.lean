import ResidentCrm.Lib.Machine
import ResidentCrm.Kafka.OffsetTracker

/-!
# The consumer's poll loop

`utils/kafkaConsumer.py` as a machine. The poll-loop thread commits, dispatches its backlog,
pauses or resumes fetching and polls; the rebalance listener runs inside `consumer.poll()`, on the
same thread. Workers run beside it, and a signal may ask for shutdown at any point.

What a message comes to (the forward, the DLQ publish) and the report of it to the tracker are
two steps, and the release of its permit is a third, so that a worker can outlive the revocation
of its partition between any two of them.

The commit itself is one step with the `take_committable` or `committable_for` before it: both
run on the poll-loop thread, and what workers report in between is ordered after the take.

The parts `polled`, `handled` and `committed` are history, which no step reads: what was polled in
the current ownership period of a partition, what messages came to, and the positions of the
commits issued in the current period.
-/

namespace ResidentCrm.Kafka

inductive Fate where
  | forwarded
  | skipped
  | deadLettered
deriving DecidableEq, Repr

/-- What the tracker is told: `_record_completion` or `_record_abandonment`. -/
inductive Report where
  | completed
  | abandoned
deriving DecidableEq, Repr

/-- How far the handling of a message has come: it runs, its outcome is settled and not yet
reported, or only its permit is left to release. -/
inductive Stage where
  | running
  | settled (report : Report)
  | ending
deriving DecidableEq, Repr

/-- A dispatched message and the permit it holds. -/
structure Task (TP : Type*) where
  tp : TP
  offset : ℕ
  stage : Stage := .running
deriving DecidableEq

/-- How `_handle_one_message` can end. A flag says whether `publish_to_dlq` succeeded. -/
inductive HandlerOutcome where
  | poison (published : Bool)
  | skipped
  | submitted
  | failed (published : Bool)
deriving DecidableEq, Repr

inductive WorkerOutcome where
  | forwarded
  | timeout (published : Bool)
  | failed (published : Bool)
deriving DecidableEq, Repr

/-- What a handled message came to and what the tracker is told of it; nothing where the DLQ
publish failed and the offset is held. -/
def HandlerOutcome.settlement : HandlerOutcome → Option (Fate × Report)
  | .poison true => some (.deadLettered, .completed)
  | .poison false => none
  | .skipped => some (.skipped, .completed)
  | .submitted => none
  | .failed true => some (.deadLettered, .abandoned)
  | .failed false => none

def WorkerOutcome.settlement : WorkerOutcome → Option (Fate × Report)
  | .forwarded => some (.forwarded, .completed)
  | .timeout true => some (.deadLettered, .completed)
  | .timeout false => none
  | .failed true => some (.deadLettered, .abandoned)
  | .failed false => none

/-- Where the poll-loop thread is. `dispatch true` is the second `_dispatch_backlog` of a cycle. -/
inductive Pc where
  | loop
  | commit
  | dispatch (again : Bool)
  | setFetching
  | poll
  | drain
  | closed
deriving DecidableEq, Repr

structure Consumer (TP : Type*) where
  tracker : OffsetTracker TP
  backlog : List (TP × ℕ)
  permits : ℕ
  assignment : Finset TP
  paused : Finset TP
  shutdown : Bool
  pc : Pc
  /-- The message `_handle_one_message` is at. -/
  handling : Option (Task TP)
  workers : List (Task TP)
  polled : TP → Finset ℕ
  handled : List (TP × ℕ × Fate)
  committed : TP → List ℕ

/-- One step of the poll-loop thread, of a worker (by its place in `workers`) or of the signal
handler. A flag `ok` says whether `consumer.commit` returned. -/
inductive Action (TP : Type*) where
  | loopTest
  | commitReady (ok : Bool)
  | dispatchNext
  | dispatchDone
  | handles (outcome : HandlerOutcome)
  | handlerReports
  | handlerReturns
  | setFetching
  | revoked (partitions : Finset TP) (ok : Bool)
  | assigned (partitions : Finset TP)
  | polled (records : List (TP × ℕ))
  | loopRaised
  | workerSettles (worker : ℕ) (outcome : WorkerOutcome)
  | workerReports (worker : ℕ)
  | workerReleases (worker : ℕ)
  | requestShutdown
  | cancelWorker (worker : ℕ)
  | drainCommit (ok : Bool)

namespace Consumer

variable {TP : Type*} [DecidableEq TP]

def stageAfter : Option (Fate × Report) → Stage
  | some (_, report) => .settled report
  | none => .ending

def reportTo (t : OffsetTracker TP) (task : Task TP) : Report → OffsetTracker TP
  | .completed => t.markCompleted task.tp task.offset
  | .abandoned => t.markAbandoned task.tp task.offset

def note (task : Task TP) (outcome : Option (Fate × Report)) (handled : List (TP × ℕ × Fate)) :
    List (TP × ℕ × Fate) :=
  match outcome with
  | some (fate, _) => (task.tp, task.offset, fate) :: handled
  | none => handled

def issue (commits : TP → Option ℕ) (committed : TP → List ℕ) : TP → List ℕ :=
  fun tp => (commits tp).toList ++ committed tp

def dropBacklog (backlog : List (TP × ℕ)) (partitions : Finset TP) : List (TP × ℕ) :=
  backlog.filter fun x => x.1 ∉ partitions

/-- Kafka's part of a poll: records of owned partitions that are not paused, each partition's in
increasing order and above what it gave before. -/
def Fetches (s : Consumer TP) (records : List (TP × ℕ)) : Prop :=
  records.Pairwise (fun x y => x.1 = y.1 → x.2 < y.2) ∧
    ∀ x ∈ records, x.1 ∈ s.assignment ∧ x.1 ∉ s.paused ∧ ∀ o ∈ s.polled x.1, o < x.2

instance (s : Consumer TP) (records : List (TP × ℕ)) : Decidable (s.Fetches records) :=
  inferInstanceAs (Decidable (_ ∧ _))

/-- `_commit_ready_offsets`: whether the commit raises changes nothing here, since the offsets
are retired by the take. -/
def commitReadyOffsets (s : Consumer TP) : Consumer TP :=
  let (commits, tracker) := s.tracker.takeCommittable
  { s with tracker := tracker, committed := issue commits s.committed }

/-- `on_partitions_revoked`: the positions it commits belong to the period that ends with it. -/
def onPartitionsRevoked (s : Consumer TP) (partitions : Finset TP) : Consumer TP :=
  { s with
    backlog := dropBacklog s.backlog partitions
    tracker := (s.tracker.committableFor partitions).2.forget partitions
    assignment := s.assignment \ partitions
    paused := s.paused \ partitions
    polled := fun tp => if tp ∈ partitions then ∅ else s.polled tp
    committed := fun tp => if tp ∈ partitions then [] else s.committed tp }

/-- `on_partitions_assigned`: `forget` of an untracked partition changes nothing. -/
def onPartitionsAssigned (s : Consumer TP) (partitions : Finset TP) : Consumer TP :=
  { s with
    tracker := s.tracker.forget partitions
    assignment := s.assignment ∪ partitions
    paused := s.paused \ partitions
    polled := fun tp => if tp ∈ partitions then ∅ else s.polled tp
    committed := fun tp => if tp ∈ partitions then [] else s.committed tp }

def setFetching (s : Consumer TP) : Consumer TP :=
  if s.backlog.isEmpty then { s with paused := ∅ } else { s with paused := s.assignment }

def step (s : Consumer TP) : Action TP → Option (Consumer TP)
  | .loopTest =>
    if s.pc = .loop then some { s with pc := if s.shutdown then .drain else .commit } else none
  | .commitReady _ =>
    if s.pc = .commit then some { s.commitReadyOffsets with pc := .dispatch false } else none
  | .dispatchNext =>
    match s.pc, s.handling, s.backlog, s.permits with
    | .dispatch _, none, (tp, offset) :: backlog, permits + 1 =>
      if s.shutdown then none
      else some { s with
        permits := permits
        backlog := backlog
        tracker := s.tracker.markDispatched tp offset
        handling := some { tp, offset } }
    | _, _, _, _ => none
  | .dispatchDone =>
    match s.pc, s.handling with
    | .dispatch again, none =>
      if s.backlog = [] ∨ s.shutdown = true ∨ s.permits = 0 then
        some { s with pc := if again then .loop else .setFetching }
      else none
    | _, _ => none
  | .handles outcome =>
    match s.handling with
    | some task =>
      if task.stage ≠ .running then none
      else if outcome = .submitted then
        some { s with handling := none, workers := s.workers ++ [task] }
      else
        some { s with
          handling := some { task with stage := stageAfter outcome.settlement }
          handled := note task outcome.settlement s.handled }
    | none => none
  | .handlerReports =>
    match s.handling with
    | some task =>
      match task.stage with
      | .settled report =>
        some { s with
          tracker := reportTo s.tracker task report
          handling := some { task with stage := .ending } }
      | _ => none
    | none => none
  | .handlerReturns =>
    match s.handling with
    | some task =>
      if task.stage = .ending then some { s with handling := none, permits := s.permits + 1 }
      else none
    | none => none
  | .setFetching =>
    if s.pc = .setFetching then some { s.setFetching with pc := .poll } else none
  | .revoked partitions _ =>
    if s.pc = .poll then some (s.onPartitionsRevoked partitions) else none
  | .assigned partitions =>
    -- a partition is assigned only once its last period has ended
    if s.pc = .poll ∧ Disjoint partitions s.assignment then
      some (s.onPartitionsAssigned partitions)
    else none
  | .polled records =>
    if s.pc = .poll ∧ s.Fetches records then
      some { s with
        backlog := s.backlog ++ records
        polled := fun tp =>
          s.polled tp ∪ ((records.filter (·.1 = tp)).map (·.2)).toFinset
        pc := .dispatch true }
    else none
  | .loopRaised =>
    if s.pc = .setFetching ∨ s.pc = .poll then some { s with pc := .drain } else none
  | .workerSettles worker outcome =>
    match s.workers[worker]? with
    | some task =>
      if task.stage = .running then
        some { s with
          workers := s.workers.set worker { task with stage := stageAfter outcome.settlement }
          handled := note task outcome.settlement s.handled }
      else none
    | none => none
  | .workerReports worker =>
    match s.workers[worker]? with
    | some task =>
      match task.stage with
      | .settled report =>
        some { s with
          tracker := reportTo s.tracker task report
          workers := s.workers.set worker { task with stage := .ending } }
      | _ => none
    | none => none
  | .workerReleases worker =>
    match s.workers[worker]? with
    | some task =>
      if task.stage = .ending then
        some { s with workers := s.workers.eraseIdx worker, permits := s.permits + 1 }
      else none
    | none => none
  | .requestShutdown => some { s with shutdown := true }
  | .cancelWorker worker =>
    -- `cancel_futures` drops what no thread of the pool has taken up
    match s.workers[worker]? with
    | some task =>
      if s.pc = .drain ∧ task.stage = .running then
        some { s with workers := s.workers.eraseIdx worker }
      else none
    | none => none
  | .drainCommit _ =>
    if s.pc = .drain then some { s.commitReadyOffsets with pc := .closed } else none

/-- The consumer when `consume_forever` enters its loop. -/
def init (maxConcurrent : ℕ) : Consumer TP where
  tracker := .empty
  backlog := []
  permits := maxConcurrent
  assignment := ∅
  paused := ∅
  shutdown := false
  pc := .loop
  handling := none
  workers := []
  polled _ := ∅
  handled := []
  committed _ := []

def commitsOf (s : Consumer TP) : Action TP → TP → Option ℕ
  | .commitReady _ => s.tracker.takeCommittable.1
  | .drainCommit _ => s.tracker.takeCommittable.1
  | .revoked partitions _ => (s.tracker.committableFor partitions).1
  | _ => fun _ => none

variable (TP) in
/-- The consumer with `MAX_CONCURRENT_INVESTIGATIONS` permits. -/
def machine (maxConcurrent : ℕ) : Machine (Consumer TP) (Action TP) where
  start s := s = init maxConcurrent
  step := step

/-! ## What a step can do -/

/-- The steps one by one, each with its guard. -/
inductive Steps (s : Consumer TP) : Action TP → Consumer TP → Prop
  | loopTest : s.pc = .loop →
      Steps s .loopTest { s with pc := if s.shutdown then .drain else .commit }
  | commitReady {ok : Bool} : s.pc = .commit →
      Steps s (.commitReady ok) { s.commitReadyOffsets with pc := .dispatch false }
  | dispatchNext {again : Bool} {tp : TP} {offset : ℕ} {backlog : List (TP × ℕ)} {permits : ℕ} :
      s.pc = .dispatch again → s.handling = none → s.backlog = (tp, offset) :: backlog →
      s.permits = permits + 1 → s.shutdown = false →
      Steps s .dispatchNext { s with
        permits := permits
        backlog := backlog
        tracker := s.tracker.markDispatched tp offset
        handling := some { tp, offset } }
  | dispatchDone {again : Bool} : s.pc = .dispatch again → s.handling = none →
      (s.backlog = [] ∨ s.shutdown = true ∨ s.permits = 0) →
      Steps s .dispatchDone { s with pc := if again then .loop else .setFetching }
  | submits {task : Task TP} : s.handling = some task → task.stage = .running →
      Steps s (.handles .submitted) { s with handling := none, workers := s.workers ++ [task] }
  | handles {task : Task TP} {outcome : HandlerOutcome} : s.handling = some task →
      task.stage = .running → outcome ≠ .submitted →
      Steps s (.handles outcome) { s with
        handling := some { task with stage := stageAfter outcome.settlement }
        handled := note task outcome.settlement s.handled }
  | handlerReports {task : Task TP} {report : Report} : s.handling = some task →
      task.stage = .settled report →
      Steps s .handlerReports { s with
        tracker := reportTo s.tracker task report
        handling := some { task with stage := .ending } }
  | handlerReturns {task : Task TP} : s.handling = some task → task.stage = .ending →
      Steps s .handlerReturns { s with handling := none, permits := s.permits + 1 }
  | setFetching : s.pc = .setFetching →
      Steps s .setFetching { s.setFetching with pc := .poll }
  | revoked {partitions : Finset TP} {ok : Bool} : s.pc = .poll →
      Steps s (.revoked partitions ok) (s.onPartitionsRevoked partitions)
  | assigned {partitions : Finset TP} : s.pc = .poll → Disjoint partitions s.assignment →
      Steps s (.assigned partitions) (s.onPartitionsAssigned partitions)
  | polled {records : List (TP × ℕ)} : s.pc = .poll → s.Fetches records →
      Steps s (.polled records) { s with
        backlog := s.backlog ++ records
        polled := fun tp =>
          s.polled tp ∪ ((records.filter (·.1 = tp)).map (·.2)).toFinset
        pc := .dispatch true }
  | loopRaised : (s.pc = .setFetching ∨ s.pc = .poll) → Steps s .loopRaised { s with pc := .drain }
  | workerSettles {worker : ℕ} {task : Task TP} {outcome : WorkerOutcome} :
      s.workers[worker]? = some task → task.stage = .running →
      Steps s (.workerSettles worker outcome) { s with
        workers := s.workers.set worker { task with stage := stageAfter outcome.settlement }
        handled := note task outcome.settlement s.handled }
  | workerReports {worker : ℕ} {task : Task TP} {report : Report} :
      s.workers[worker]? = some task → task.stage = .settled report →
      Steps s (.workerReports worker) { s with
        tracker := reportTo s.tracker task report
        workers := s.workers.set worker { task with stage := .ending } }
  | workerReleases {worker : ℕ} {task : Task TP} : s.workers[worker]? = some task →
      task.stage = .ending →
      Steps s (.workerReleases worker)
        { s with workers := s.workers.eraseIdx worker, permits := s.permits + 1 }
  | requestShutdown : Steps s .requestShutdown { s with shutdown := true }
  | cancelWorker {worker : ℕ} {task : Task TP} : s.workers[worker]? = some task →
      s.pc = .drain → task.stage = .running →
      Steps s (.cancelWorker worker) { s with workers := s.workers.eraseIdx worker }
  | drainCommit {ok : Bool} : s.pc = .drain →
      Steps s (.drainCommit ok) { s.commitReadyOffsets with pc := .closed }

theorem Steps.of_step {s t : Consumer TP} {a : Action TP} (h : s.step a = some t) :
    s.Steps a t := by
  cases a with
  | loopTest =>
    obtain ⟨hpc, ⟨⟩⟩ := Option.ite_none_right_eq_some.1 h
    exact .loopTest hpc
  | commitReady ok =>
    obtain ⟨hpc, ⟨⟩⟩ := Option.ite_none_right_eq_some.1 h
    exact .commitReady hpc
  | dispatchNext =>
    simp only [step] at h
    split at h
    · next again tp offset backlog permits hpc hh hb hp =>
      split at h
      · cases h
      · next hs =>
        cases h
        exact .dispatchNext hpc hh hb hp (by simpa using hs)
    · cases h
  | dispatchDone =>
    simp only [step] at h
    split at h
    · next again hpc hh =>
      obtain ⟨hd, ⟨⟩⟩ := Option.ite_none_right_eq_some.1 h
      exact .dispatchDone hpc hh hd
    · cases h
  | handles outcome =>
    simp only [step] at h
    split at h
    · next task ht =>
      split at h
      · cases h
      · next hr =>
        have hr : task.stage = .running := by simpa using hr
        split at h
        · next ho =>
          cases h
          exact ho ▸ .submits ht hr
        · next ho =>
          cases h
          exact .handles ht hr ho
    · cases h
  | handlerReports =>
    simp only [step] at h
    split at h
    · next task ht =>
      split at h
      · next report hr =>
        cases h
        exact .handlerReports ht hr
      · cases h
    · cases h
  | handlerReturns =>
    simp only [step] at h
    split at h
    · next task ht =>
      obtain ⟨he, ⟨⟩⟩ := Option.ite_none_right_eq_some.1 h
      exact .handlerReturns ht he
    · cases h
  | setFetching =>
    obtain ⟨hpc, ⟨⟩⟩ := Option.ite_none_right_eq_some.1 h
    exact .setFetching hpc
  | revoked partitions ok =>
    obtain ⟨hpc, ⟨⟩⟩ := Option.ite_none_right_eq_some.1 h
    exact .revoked hpc
  | assigned partitions =>
    obtain ⟨⟨hpc, hd⟩, ⟨⟩⟩ := Option.ite_none_right_eq_some.1 h
    exact .assigned hpc hd
  | polled records =>
    obtain ⟨⟨hpc, hf⟩, ⟨⟩⟩ := Option.ite_none_right_eq_some.1 h
    exact .polled hpc hf
  | loopRaised =>
    obtain ⟨hpc, ⟨⟩⟩ := Option.ite_none_right_eq_some.1 h
    exact .loopRaised hpc
  | workerSettles worker outcome =>
    simp only [step] at h
    split at h
    · next task ht =>
      obtain ⟨hr, ⟨⟩⟩ := Option.ite_none_right_eq_some.1 h
      exact .workerSettles ht hr
    · cases h
  | workerReports worker =>
    simp only [step] at h
    split at h
    · next task ht =>
      split at h
      · next report hr =>
        cases h
        exact .workerReports ht hr
      · cases h
    · cases h
  | workerReleases worker =>
    simp only [step] at h
    split at h
    · next task ht =>
      obtain ⟨he, ⟨⟩⟩ := Option.ite_none_right_eq_some.1 h
      exact .workerReleases ht he
    · cases h
  | requestShutdown =>
    cases h
    exact .requestShutdown
  | cancelWorker worker =>
    simp only [step] at h
    split at h
    · next task ht =>
      obtain ⟨⟨hpc, hr⟩, ⟨⟩⟩ := Option.ite_none_right_eq_some.1 h
      exact .cancelWorker ht hpc hr
    · cases h
  | drainCommit ok =>
    obtain ⟨hpc, ⟨⟩⟩ := Option.ite_none_right_eq_some.1 h
    exact .drainCommit hpc

end Consumer

end ResidentCrm.Kafka
