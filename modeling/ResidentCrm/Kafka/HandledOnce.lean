import ResidentCrm.Kafka.CommitSafety
import Mathlib.Data.Multiset.AddSub
import Mathlib.Tactic.Abel

/-!
# Every polled message is handled once

The poll loop with a record of what it does: which messages each partition has given in the current
ownership period and which were handed to `_handle_one_message`, and whose permits were acquired,
released, and cancelled with their futures in the drain. What was given is what was handed over and
then the backlog, in this order, and the permits that are not free are those of the messages in
flight (`kept_of_reachable`). In a fair run, in which the loop goes round and permits come back, a
message that waits is handed over unless its partition is revoked or the loop stops
(`handed_of_waiting`), and fetching is resumed once nothing waits (`resumed_of_nothing_waiting`).
-/

namespace ResidentCrm.Kafka

section

variable {TP : Type*}

def Task.message (task : Task TP) : TP × ℕ := (task.tp, task.offset)

namespace Consumer

/-- The messages that hold a permit. -/
def inFlight (s : Consumer TP) : Multiset (TP × ℕ) :=
  ((s.handling.toList ++ s.workers).map Task.message : List (TP × ℕ))

/-- The loop has ended, or is about to. -/
def Stopped (s : Consumer TP) : Prop := s.shutdown = true ∨ s.pc = .drain ∨ s.pc = .closed

theorem inFlight_submits {s : Consumer TP} {task : Task TP} (h : s.handling = some task) :
    inFlight { s with handling := none, workers := s.workers ++ [task] } = s.inFlight := by
  unfold inFlight
  rw [h]
  refine Multiset.coe_eq_coe.2 ?_
  simp only [Option.toList_none, Option.toList_some, List.nil_append, List.map_append,
    List.map_cons, List.map_nil, List.singleton_append]
  exact List.perm_append_singleton ..

theorem inFlight_handling {s u : Consumer TP} {task task' : Task TP}
    (h : s.handling = some task) (hu : u.handling = some task') (hworkers : u.workers = s.workers)
    (hmessage : task'.message = task.message) : u.inFlight = s.inFlight := by
  unfold inFlight
  rw [h, hu, hworkers]
  simp only [Option.toList_some, List.singleton_append, List.map_cons, hmessage]

theorem inFlight_workers {s u : Consumer TP} {worker : ℕ} {task task' : Task TP}
    (h : s.workers[worker]? = some task) (hu : u.workers = s.workers.set worker task')
    (hhandling : u.handling = s.handling) (hmessage : task'.message = task.message) :
    u.inFlight = s.inFlight := by
  have hset : (s.workers.set worker task').map Task.message = s.workers.map Task.message := by
    rw [List.map_set, hmessage]
    refine List.ext_getElem? fun k => ?_
    rw [List.getElem?_set]
    split
    · next hk =>
      subst hk
      have hlt := (List.getElem?_eq_some_iff.1 h).1
      rw [if_pos (by simpa using hlt), List.getElem?_map, h]
      rfl
    · rfl
  unfold inFlight
  rw [hu, hhandling, List.map_append, List.map_append, hset]

theorem inFlight_returns {s : Consumer TP} {task : Task TP} {permits : ℕ}
    (h : s.handling = some task) :
    s.inFlight = task.message ::ₘ inFlight { s with handling := none, permits } := by
  unfold inFlight
  rw [h]
  rfl

theorem inFlight_erase {s u : Consumer TP} {worker : ℕ} {task : Task TP}
    (h : s.workers[worker]? = some task) (hu : u.workers = s.workers.eraseIdx worker)
    (hhandling : u.handling = s.handling) : s.inFlight = task.message ::ₘ u.inFlight := by
  obtain ⟨hlt, hget⟩ := List.getElem?_eq_some_iff.1 h
  have hperm : s.workers.Perm (task :: s.workers.eraseIdx worker) := by
    rw [← hget]
    exact (List.getElem_cons_eraseIdx_perm hlt).symm
  unfold inFlight
  rw [hu, hhandling, Multiset.cons_coe]
  refine Multiset.coe_eq_coe.2 ?_
  have hall := (hperm.append_left s.handling.toList).map Task.message
  refine hall.trans ?_
  rw [← List.map_cons (f := Task.message)]
  exact List.perm_middle.map _

end Consumer

end

open Consumer

/-- The consumer and what it has done. `given` and `handed` begin anew with each ownership period
of a partition. -/
structure Record (TP : Type*) where
  now : Consumer TP
  given : TP → List ℕ
  handed : TP → List ℕ
  acquired : Multiset (TP × ℕ)
  released : Multiset (TP × ℕ)
  cancelled : Multiset (TP × ℕ)

namespace Record

variable {TP : Type*} [DecidableEq TP]

/-- A period of these partitions ends or begins. -/
def clear (partitions : Finset TP) (offsets : TP → List ℕ) : TP → List ℕ :=
  fun tp => if tp ∈ partitions then [] else offsets tp

/-- What the partitions have given after an action. -/
def givenAfter (r : Record TP) : Action TP → TP → List ℕ
  | .polled records => fun tp => r.given tp ++ offsetsOf records tp
  | .revoked partitions _ | .assigned partitions => clear partitions r.given
  | _ => r.given

/-- What was handed over after an action. -/
def handedAfter (r : Record TP) : Action TP → TP → List ℕ
  | .dispatchNext => fun tp => r.handed tp ++ offsetsOf (r.now.backlog.take 1) tp
  | .revoked partitions _ | .assigned partitions => clear partitions r.handed
  | _ => r.handed

/-- The messages an action acquires a permit for. -/
def acquires (s : Consumer TP) : Action TP → List (TP × ℕ)
  | .dispatchNext => s.backlog.take 1
  | _ => []

/-- The messages whose permit an action releases. -/
def releases (s : Consumer TP) : Action TP → List (TP × ℕ)
  | .handlerReturns => s.handling.toList.map Task.message
  | .workerReleases worker => s.workers[worker]?.toList.map Task.message
  | _ => []

/-- The messages whose future an action cancels. -/
def cancels (s : Consumer TP) : Action TP → List (TP × ℕ)
  | .cancelWorker worker => s.workers[worker]?.toList.map Task.message
  | _ => []

def step (r : Record TP) (a : Action TP) : Option (Record TP) :=
  (r.now.step a).map fun now =>
    { now := now
      given := r.givenAfter a
      handed := r.handedAfter a
      acquired := acquires r.now a + r.acquired
      released := releases r.now a + r.released
      cancelled := cancels r.now a + r.cancelled }

variable (TP) in
def machine (maxConcurrent : ℕ) : Machine (Record TP) (Action TP) where
  start r := r = ⟨init maxConcurrent, fun _ => [], fun _ => [], 0, 0, 0⟩
  step := step

/-! ## What is kept -/

/-- Of each partition, the messages given in its period are those handed over and then those that
wait, no message among them twice. Each permit that was acquired is held by a message in flight or
has been released once, or, after the loop, was cancelled; all others are free. -/
structure Kept (maxConcurrent : ℕ) (r : Record TP) : Prop where
  order : ∀ tp, r.given tp = r.handed tp ++ offsetsOf r.now.backlog tp
  once : ∀ tp, (r.given tp).Pairwise (· < ·)
  released : r.acquired = r.now.inFlight + r.released + r.cancelled
  permits : r.now.permits + r.now.inFlight.card + r.cancelled.card = maxConcurrent
  running : r.now.pc ≠ .drain → r.now.pc ≠ .closed → r.cancelled = 0

/-- The invariant: beside what is kept, what was given was polled, and only owned partitions have a
backlog. -/
structure Inv (maxConcurrent : ℕ) (r : Record TP) : Prop extends Kept maxConcurrent r where
  arrived : ∀ tp, ∀ o ∈ r.given tp, o ∈ r.now.polled tp
  grounded : r.now.Grounded

variable {maxConcurrent : ℕ} {r t : Record TP} {a : Action TP} {s : Consumer TP}

/-! ## A step -/

omit [DecidableEq TP] in
/-- `_set_fetching` pauses partitions, or resumes all where nothing waits. -/
theorem setFetching_eq (s : Consumer TP) :
    ∃ paused, s.setFetching = { s with paused } ∧ (s.backlog = [] → paused = ∅) := by
  unfold Consumer.setFetching
  split
  · exact ⟨_, rfl, fun _ => rfl⟩
  · next hwaits =>
    refine ⟨_, rfl, fun hnil => ?_⟩
    rw [hnil] at hwaits
    exact absurd rfl hwaits

theorem order_step (h : r.now.Steps a s) (hr : r.Inv maxConcurrent) (tp : TP) :
    r.givenAfter a tp = r.handedAfter a tp ++ offsetsOf s.backlog tp := by
  have horder := hr.order tp
  cases h with
  | @dispatchNext again tp' o backlog permits hpc hh hb hp hs =>
    change r.given tp = r.handed tp ++ offsetsOf (r.now.backlog.take 1) tp ++ offsetsOf backlog tp
    rw [horder, List.append_assoc, ← offsetsOf_append, hb]
    rfl
  | @polled records hpc hf =>
    change r.given tp ++ offsetsOf records tp =
      r.handed tp ++ offsetsOf (r.now.backlog ++ records) tp
    rw [horder, offsetsOf_append, List.append_assoc]
  | @revoked partitions ok hpc =>
    change clear partitions r.given tp =
      clear partitions r.handed tp ++ offsetsOf (dropBacklog r.now.backlog partitions) tp
    unfold clear
    split
    · next htp => rw [offsetsOf_dropBacklog_lost htp, List.append_nil]
    · next htp => rw [offsetsOf_dropBacklog_kept htp, horder]
  | @assigned partitions hpc hdisj =>
    change clear partitions r.given tp =
      clear partitions r.handed tp ++ offsetsOf r.now.backlog tp
    unfold clear
    split
    · next htp =>
      -- a partition that is assigned was not owned, and has no backlog
      have hnone : offsetsOf r.now.backlog tp = [] := by
        refine List.eq_nil_iff_forall_not_mem.2 fun o ho => ?_
        have howned := hr.grounded.backlog_owned _ (mem_offsetsOf.1 ho)
        exact Finset.disjoint_left.1 hdisj htp howned
      rw [hnone, List.append_nil]
    · exact horder
  | setFetching =>
    obtain ⟨paused, heq, -⟩ := setFetching_eq r.now
    rw [heq]
    exact horder
  | _ => exact horder

theorem once_step (h : r.now.Steps a s) (hr : r.Inv maxConcurrent) (tp : TP) :
    (r.givenAfter a tp).Pairwise (· < ·) := by
  have honce := hr.once tp
  have hclear : ∀ partitions, (clear partitions r.given tp).Pairwise (· < ·) := by
    intro partitions
    unfold clear
    split
    · exact .nil
    · exact honce
  cases h with
  | @polled records hpc hf =>
    refine List.pairwise_append.2 ⟨honce, offsetsOf_pairwise tp hf.1, fun o ho o' ho' => ?_⟩
    exact (hf.2 _ (mem_offsetsOf.1 ho')).2.2 o (hr.arrived tp o ho)
  | revoked => exact hclear _
  | assigned => exact hclear _
  | _ => exact honce

theorem arrived_step (h : r.now.Steps a s) (hr : r.Inv maxConcurrent) (tp : TP) :
    ∀ o ∈ r.givenAfter a tp, o ∈ s.polled tp := by
  have harrived := hr.arrived tp
  have hclear : ∀ partitions, ∀ o ∈ clear partitions r.given tp,
      o ∈ if tp ∈ partitions then ∅ else r.now.polled tp := by
    intro partitions o ho
    unfold clear at ho
    split at ho
    · cases ho
    · next htp =>
      rw [if_neg htp]
      exact harrived o ho
  cases h with
  | @polled records hpc hf =>
    intro o ho
    refine Finset.mem_union.2 ((List.mem_append.1 ho).imp (harrived o) fun ho => ?_)
    exact List.mem_toFinset.2 ho
  | revoked => exact hclear _
  | assigned => exact hclear _
  | setFetching =>
    obtain ⟨paused, heq, -⟩ := setFetching_eq r.now
    rw [heq]
    exact harrived
  | _ => exact harrived

/-- What an action does to the permits: it takes one for a message, or gives one back. -/
theorem permits_step (h : r.now.Steps a s) :
    s.inFlight + releases r.now a + cancels r.now a = r.now.inFlight + acquires r.now a ∧
      s.permits + (acquires r.now a).length = r.now.permits + (releases r.now a).length := by
  have hsame : ∀ {u : Consumer TP}, u.inFlight = r.now.inFlight →
      u.inFlight + (([] : List (TP × ℕ)) : Multiset (TP × ℕ)) + ([] : List (TP × ℕ)) =
        r.now.inFlight + ([] : List (TP × ℕ)) := by
    intro u hu
    rw [hu, Multiset.coe_nil, add_zero, add_zero]
  cases h with
  | @dispatchNext again tp o backlog permits hpc hh hb hp hs =>
    have htake : acquires r.now .dispatchNext = [(tp, o)] := by
      rw [acquires, hb]
      rfl
    have hnow : r.now.inFlight = (r.now.workers.map Task.message : List (TP × ℕ)) := by
      unfold inFlight
      rw [hh]
      rfl
    rw [htake, hp, hnow]
    refine ⟨?_, rfl⟩
    change (((tp, o) :: r.now.workers.map Task.message : List (TP × ℕ)) : Multiset (TP × ℕ)) +
      ([] : List (TP × ℕ)) + ([] : List (TP × ℕ)) = _
    rw [Multiset.coe_nil, add_zero, add_zero, Multiset.coe_add, Multiset.coe_eq_coe]
    exact (List.perm_append_singleton ..).symm
  | @submits task ht hrun => exact ⟨hsame (inFlight_submits ht), rfl⟩
  | @handles task outcome ht hrun hne => exact ⟨hsame (inFlight_handling ht rfl rfl rfl), rfl⟩
  | @handlerReports task report ht hr => exact ⟨hsame (inFlight_handling ht rfl rfl rfl), rfl⟩
  | @handlerReturns task ht he =>
    have hreleases : releases r.now .handlerReturns = [task.message] := by
      rw [releases, ht]
      rfl
    rw [hreleases, inFlight_returns ht]
    refine ⟨?_, rfl⟩
    refine (add_zero _).trans (Eq.trans ?_ (add_zero _).symm)
    exact (add_comm _ _).trans (Multiset.singleton_add _ _)
  | @workerSettles worker task outcome ht hrun =>
    exact ⟨hsame (inFlight_workers ht rfl rfl rfl), rfl⟩
  | @workerReports worker task report ht hr =>
    exact ⟨hsame (inFlight_workers ht rfl rfl rfl), rfl⟩
  | @workerReleases worker task ht he =>
    have hreleases : releases r.now (.workerReleases worker) = [task.message] := by
      rw [releases, ht]
      rfl
    rw [hreleases, inFlight_erase ht (u := { r.now with
      workers := r.now.workers.eraseIdx worker, permits := r.now.permits + 1 }) rfl rfl]
    refine ⟨?_, rfl⟩
    refine (add_zero _).trans (Eq.trans ?_ (add_zero _).symm)
    exact (add_comm _ _).trans (Multiset.singleton_add _ _)
  | @cancelWorker worker task ht hpc hrun =>
    have hcancels : cancels r.now (.cancelWorker worker) = [task.message] := by
      rw [cancels, ht]
      rfl
    rw [hcancels, inFlight_erase ht (u := { r.now with
      workers := r.now.workers.eraseIdx worker }) rfl rfl]
    refine ⟨?_, rfl⟩
    refine (congrArg (· + _) (add_zero _)).trans (Eq.trans ?_ (add_zero _).symm)
    exact (add_comm _ _).trans (Multiset.singleton_add _ _)
  | setFetching =>
    obtain ⟨paused, heq, -⟩ := setFetching_eq r.now
    rw [heq]
    exact ⟨hsame rfl, rfl⟩
  | _ => exact ⟨hsame rfl, rfl⟩

/-- Futures are cancelled in the drain only, which is not left again. -/
theorem running_step (h : r.now.Steps a s) (hr : r.Inv maxConcurrent) (hdrain : s.pc ≠ .drain)
    (hclosed : s.pc ≠ .closed) : (cancels r.now a + r.cancelled : Multiset (TP × ℕ)) = 0 := by
  have hquiet : r.now.pc ≠ .drain → r.now.pc ≠ .closed →
      ((([] : List (TP × ℕ)) : Multiset (TP × ℕ)) + r.cancelled) = 0 := fun hd hc => by
    rw [hr.running hd hc, Multiset.coe_nil, add_zero]
  cases h with
  | loopTest hpc | commitReady hpc | setFetching hpc | polled hpc | dispatchDone hpc =>
    exact hquiet (by rw [hpc]; nofun) (by rw [hpc]; nofun)
  | loopRaised => exact absurd rfl hdrain
  | drainCommit => exact absurd rfl hclosed
  | cancelWorker ht hpc => exact absurd hpc hdrain
  | _ => exact hquiet hdrain hclosed

theorem inv_step (hr : r.Inv maxConcurrent) (ht : r.step a = some t) : t.Inv maxConcurrent := by
  obtain ⟨now, hnow, rfl⟩ := Option.map_eq_some_iff.1 ht
  have h := Steps.of_step hnow
  obtain ⟨hflight, hpermits⟩ := permits_step h
  refine ⟨⟨order_step h hr, once_step h hr, ?_, ?_, running_step h hr⟩, arrived_step h hr,
    h.grounded hr.grounded⟩
  · change (acquires r.now a : Multiset (TP × ℕ)) + r.acquired =
      now.inFlight + (releases r.now a + r.released) + (cancels r.now a + r.cancelled)
    calc (acquires r.now a : Multiset (TP × ℕ)) + r.acquired
        = r.now.inFlight + acquires r.now a + r.released + r.cancelled := by
          rw [hr.released]
          abel
      _ = now.inFlight + releases r.now a + cancels r.now a + r.released + r.cancelled := by
          rw [hflight]
      _ = _ := by abel
  · have hcard := congrArg Multiset.card hflight
    simp only [Multiset.card_add, Multiset.coe_card] at hcard
    have hold := hr.permits
    change now.permits + now.inFlight.card +
      (cancels r.now a + r.cancelled : Multiset (TP × ℕ)).card = maxConcurrent
    rw [Multiset.card_add, Multiset.coe_card]
    omega

theorem inv_start (hr : (machine TP maxConcurrent).start r) : r.Inv maxConcurrent := by
  obtain rfl : r = _ := hr
  exact
    { order := fun _ => rfl
      once := fun _ => .nil
      released := rfl
      permits := rfl
      running := fun _ _ => rfl
      arrived := fun _ _ => nofun
      grounded := (ok_init maxConcurrent).grounded }

theorem kept_of_reachable (h : (machine TP maxConcurrent).Reachable r) : r.Kept maxConcurrent :=
  (h.invariant (I := Inv maxConcurrent) (fun _ => inv_start) fun _ _ _ hr _ => inv_step hr).toKept

/-! ## A run without an end -/

/-- The loop goes round, unless it stops, and a permit comes back when all are taken. -/
structure Fair (states : ℕ → Record TP) (actions : ℕ → Action TP) : Prop where
  dispatches : ∀ n, ∃ m, n ≤ m ∧ (actions m = .dispatchDone ∨ (states m).now.Stopped)
  fetches : ∀ n, ∃ m, n ≤ m ∧ (actions m = .setFetching ∨ (states m).now.Stopped)
  ends : ∀ n, (states n).now.permits = 0 → ∃ m, n ≤ m ∧ releases (states m).now (actions m) ≠ []

/-- How many messages wait before one. -/
def ahead (x : TP × ℕ) : List (TP × ℕ) → ℕ
  | [] => 0
  | y :: l => if y = x then 0 else ahead x l + 1

theorem ahead_append {x : TP × ℕ} {l : List (TP × ℕ)} (h : x ∈ l) (l' : List (TP × ℕ)) :
    ahead x (l ++ l') = ahead x l := by
  induction l with
  | nil => cases h
  | cons y l ih =>
    simp only [List.cons_append, ahead]
    split
    · rfl
    · next hy => rw [ih ((List.mem_cons.1 h).resolve_left (Ne.symm hy))]

theorem ahead_filter_le {x : TP × ℕ} {p : TP × ℕ → Bool} (hx : p x = true) (l : List (TP × ℕ)) :
    ahead x (l.filter p) ≤ ahead x l := by
  induction l with
  | nil => exact Nat.le_refl _
  | cons y l ih =>
    by_cases hp : p y = true
    · rw [List.filter_cons_of_pos hp]
      simp only [ahead]
      split
      · exact Nat.le_refl _
      · exact Nat.succ_le_succ ih
    · have hy : y ≠ x := by
        rintro rfl
        exact hp hx
      rw [List.filter_cons_of_neg hp, ahead, if_neg hy]
      exact Nat.le_succ_of_le ih

/-- The message is handed to the handler. -/
def Hands (x : TP × ℕ) (s : Consumer TP) (a : Action TP) : Prop := x ∈ acquires s a

/-- The partition of the message is revoked. -/
def Revokes (x : TP × ℕ) : Action TP → Prop
  | .revoked partitions _ => x.1 ∈ partitions
  | _ => False

/-- A message that waits goes on waiting where it is not handed over, and no further back; it comes
closer with every message that is handed over, and no permit is taken else. -/
theorem waits_step {x : TP × ℕ} {u : Consumer TP} (h : s.Steps a u) (hx : x ∈ s.backlog)
    (hhands : ¬ Hands x s a) (hrevokes : ¬ Revokes x a) : x ∈ u.backlog ∧
      (acquires s a ≠ [] ∧ ahead x u.backlog < ahead x s.backlog ∨
        acquires s a = [] ∧ ahead x u.backlog ≤ ahead x s.backlog ∧ s.permits ≤ u.permits) := by
  cases h with
  | @dispatchNext again tp o backlog permits hpc hh hb hp hs =>
    have htake : acquires s .dispatchNext = [(tp, o)] := by
      rw [acquires, hb]
      rfl
    have hne : (tp, o) ≠ x := by
      rintro rfl
      refine hhands ?_
      rw [Hands, htake]
      exact List.mem_singleton_self _
    rw [hb] at hx ⊢
    refine ⟨(List.mem_cons.1 hx).resolve_left hne.symm, .inl ⟨by rw [htake]; nofun, ?_⟩⟩
    rw [ahead, if_neg hne]
    exact Nat.lt_succ_self _
  | polled =>
    exact ⟨List.mem_append_left _ hx, .inr ⟨rfl, Nat.le_of_eq (ahead_append hx _), Nat.le_refl _⟩⟩
  | @revoked partitions ok hpc =>
    have hkept : decide (x.1 ∉ partitions) = true := decide_eq_true hrevokes
    exact ⟨List.mem_filter.2 ⟨hx, hkept⟩,
      .inr ⟨rfl, ahead_filter_le (p := fun y => decide (y.1 ∉ partitions)) hkept _, Nat.le_refl _⟩⟩
  | setFetching =>
    obtain ⟨paused, heq, -⟩ := setFetching_eq s
    rw [heq]
    exact ⟨hx, .inr ⟨rfl, Nat.le_refl _, Nat.le_refl _⟩⟩
  | handlerReturns | workerReleases => exact ⟨hx, .inr ⟨rfl, Nat.le_refl _, Nat.le_succ _⟩⟩
  | _ => exact ⟨hx, .inr ⟨rfl, Nat.le_refl _, Nat.le_refl _⟩⟩

variable {states : ℕ → Record TP} {actions : ℕ → Action TP} {n : ℕ}

theorem steps_of_run (hrun : (machine TP maxConcurrent).IsRun states actions) (m : ℕ) :
    (states m).now.Steps (actions m) (states (m + 1)).now := by
  obtain ⟨now, hnow, heq⟩ := Option.map_eq_some_iff.1 (hrun.step m)
  rw [← heq]
  exact Steps.of_step hnow

/-- The end of a dispatch finds nothing waiting, or no permit, or a shutdown. -/
theorem dispatchDone_guard {u : Consumer TP} (h : s.Steps .dispatchDone u) (hwaits : s.backlog ≠ [])
    (hstopped : ¬ s.Stopped) : s.permits = 0 := by
  cases h with
  | dispatchDone hpc hh hguard =>
    exact (hguard.resolve_left hwaits).resolve_left fun hshutdown => hstopped (.inl hshutdown)

/-- **A message that waits is handed over**, unless its partition is revoked or the loop stops. -/
theorem handed_of_waiting (hrun : (machine TP maxConcurrent).IsRun states actions)
    (hfair : Fair states actions) {x : TP × ℕ} (hx : x ∈ (states n).now.backlog) :
    ∃ m, n ≤ m ∧ (Hands x (states m).now (actions m) ∨ Revokes x (actions m) ∨
      (states m).now.Stopped) := by
  by_contra hnever
  have hnot : ∀ m, n ≤ m → ¬ Hands x (states m).now (actions m) ∧ ¬ Revokes x (actions m) ∧
      ¬ (states m).now.Stopped := by
    intro m hm
    refine ⟨fun h => hnever ⟨m, hm, .inl h⟩, fun h => hnever ⟨m, hm, .inr (.inl h)⟩,
      fun h => hnever ⟨m, hm, .inr (.inr h)⟩⟩
  have hwaits : ∀ m, n ≤ m → x ∈ (states m).now.backlog :=
    hrun.keeps (P := fun r => x ∈ r.now.backlog) hx fun m hm hmem _ =>
      (waits_step (steps_of_run hrun m) hmem (hnot m hm).1 (hnot m hm).2.1).1
  have hstep := fun m hm =>
    (waits_step (steps_of_run hrun m) (hwaits m hm) (hnot m hm).1 (hnot m hm).2.1).2
  have hempty : ∀ k, n ≤ k → ∃ m, k ≤ m ∧ (states m).now.permits = 0 := by
    intro k hk
    obtain ⟨m, hm, hdone⟩ := hfair.dispatches k
    have hnm := Nat.le_trans hk hm
    refine ⟨m, hm, dispatchDone_guard (u := (states (m + 1)).now) ?_
      (List.ne_nil_of_mem (hwaits m hnm)) (hnot m hnm).2.2⟩
    rw [← hdone.resolve_right (hnot m hnm).2.2]
    exact steps_of_run hrun m
  -- the message comes closer again and again, as permits come back and are taken
  refine Machine.not_always_again (f := fun m => ahead x (states m).now.backlog) (n := n)
    (fun m hm => ?_) fun k hk => ?_
  · rcases hstep m hm with ⟨-, hlt⟩ | ⟨-, hle, -⟩
    · exact Nat.le_of_lt hlt
    · exact hle
  · by_contra hstill
    have hnone : ∀ m, k ≤ m → acquires (states m).now (actions m) = [] ∧
        (states m).now.permits ≤ (states (m + 1)).now.permits := by
      intro m hm
      rcases hstep m (Nat.le_trans hk hm) with ⟨-, hlt⟩ | ⟨hnil, -, hle⟩
      · exact absurd ⟨m, hm, hlt⟩ hstill
      · exact ⟨hnil, hle⟩
    obtain ⟨m₁, hm₁, hzero⟩ := hempty k hk
    obtain ⟨m₂, hm₂, hreleases⟩ := hfair.ends m₁ hzero
    have hkm₂ := Nat.le_trans hm₁ hm₂
    have hback : 0 < (states (m₂ + 1)).now.permits := by
      have hpermits := (permits_step (steps_of_run hrun m₂)).2
      have hlength := List.length_pos_of_ne_nil hreleases
      rw [(hnone m₂ hkm₂).1, List.length_nil] at hpermits
      omega
    obtain ⟨m₃, hm₃, hzero'⟩ := hempty (m₂ + 1) (by omega)
    have hkept := hrun.keeps (P := fun r => 0 < r.now.permits) (n := m₂ + 1) hback
      (fun m hm hpos _ => Nat.lt_of_lt_of_le hpos (hnone m (by omega)).2) m₃ hm₃
    exact absurd hzero' (Nat.ne_of_gt hkept)

/-- A backlog stays empty until messages are polled. -/
theorem backlog_step {u : Consumer TP} (h : s.Steps a u) (hnil : s.backlog = [])
    (hpolled : ∀ records, a = .polled records → records = []) : u.backlog = [] := by
  cases h with
  | @dispatchNext again tp o backlog permits hpc hh hb hp hs =>
    rw [hnil] at hb
    cases hb
  | @polled records hpc hf =>
    rw [hpolled records rfl, hnil]
    rfl
  | @revoked partitions ok hpc =>
    change dropBacklog s.backlog partitions = []
    rw [hnil]
    rfl
  | setFetching =>
    obtain ⟨paused, heq, -⟩ := setFetching_eq s
    rw [heq]
    exact hnil
  | _ => exact hnil

/-- **Fetching is resumed once nothing waits**, unless messages are polled or the loop stops. -/
theorem resumed_of_nothing_waiting (hrun : (machine TP maxConcurrent).IsRun states actions)
    (hfair : Fair states actions) (hnil : (states n).now.backlog = []) :
    ∃ m, n ≤ m ∧ ((states m).now.paused = ∅ ∨ (∃ records, records ≠ [] ∧
      actions m = .polled records) ∨ (states m).now.Stopped) := by
  by_contra hnever
  have hpolled : ∀ m, n ≤ m → ∀ records, actions m = .polled records → records = [] := by
    intro m hm records hrecords
    by_contra hne
    exact hnever ⟨m, hm, .inr (.inl ⟨records, hne, hrecords⟩)⟩
  have hkept : ∀ m, n ≤ m → (states m).now.backlog = [] :=
    hrun.keeps (P := fun r => r.now.backlog = []) hnil fun m hm hback _ =>
      backlog_step (steps_of_run hrun m) hback (hpolled m hm)
  obtain ⟨m, hm, hfetches⟩ := hfair.fetches n
  have hset := hfetches.resolve_right fun h => hnever ⟨m, hm, .inr (.inr h)⟩
  have hsteps := steps_of_run hrun m
  rw [hset] at hsteps
  have hresumed : (states (m + 1)).now.paused = ∅ := by
    generalize (states (m + 1)).now = u at hsteps ⊢
    cases hsteps with
    | setFetching hpc =>
      obtain ⟨paused, heq, hpaused⟩ := setFetching_eq (states m).now
      rw [heq]
      exact hpaused (hkept m hm)
  exact hnever ⟨m + 1, Nat.le_succ_of_le hm, .inl hresumed⟩

/-! ## A fair run -/

/-- The point of the loop at which nothing has arrived, after `n` actions. -/
def idlePc (n : ℕ) : Pc :=
  match n % 6 with
  | 0 => .loop
  | 1 => .commit
  | 2 => .dispatch false
  | 3 => .setFetching
  | 4 => .poll
  | _ => .dispatch true

def idleAction (n : ℕ) : Action TP :=
  match n % 6 with
  | 0 => .loopTest
  | 1 => .commitReady true
  | 3 => .setFetching
  | 4 => .polled []
  | _ => .dispatchDone

/-- Nothing has arrived. -/
structure Idle (n : ℕ) (s : Consumer TP) : Prop where
  pc : s.pc = idlePc n
  backlog : s.backlog = []
  handling : s.handling = none
  shutdown : s.shutdown = false

theorem Idle.next (hs : Idle n s) :
    ∃ u, s.step (idleAction n) = some u ∧ Idle (n + 1) u ∧ u.permits = s.permits := by
  obtain ⟨hpc, hbacklog, hhandling, hshutdown⟩ := hs
  have hcases : n % 6 = 0 ∧ (n + 1) % 6 = 1 ∨ n % 6 = 1 ∧ (n + 1) % 6 = 2 ∨
      n % 6 = 2 ∧ (n + 1) % 6 = 3 ∨ n % 6 = 3 ∧ (n + 1) % 6 = 4 ∨
      n % 6 = 4 ∧ (n + 1) % 6 = 5 ∨ n % 6 = 5 ∧ (n + 1) % 6 = 0 := by omega
  rcases hcases with ⟨h, hn⟩ | ⟨h, hn⟩ | ⟨h, hn⟩ | ⟨h, hn⟩ | ⟨h, hn⟩ | ⟨h, hn⟩ <;>
    simp only [idlePc, h] at hpc
  · refine ⟨{ s with pc := .commit }, ?_, ⟨?_, hbacklog, hhandling, hshutdown⟩, rfl⟩
    · simp [idleAction, h, Consumer.step, hpc, hshutdown]
    · simp [idlePc, hn]
  · refine ⟨{ s.commitReadyOffsets with pc := .dispatch false }, ?_,
      ⟨?_, hbacklog, hhandling, hshutdown⟩, rfl⟩
    · simp [idleAction, h, Consumer.step, hpc]
    · simp [idlePc, hn]
  · refine ⟨{ s with pc := .setFetching }, ?_, ⟨?_, hbacklog, hhandling, hshutdown⟩, rfl⟩
    · simp [idleAction, h, Consumer.step, hpc, hhandling, hbacklog]
    · simp [idlePc, hn]
  · refine ⟨{ s with paused := ∅, pc := .poll }, ?_, ⟨?_, hbacklog, hhandling, hshutdown⟩, rfl⟩
    · simp [idleAction, h, Consumer.step, hpc, Consumer.setFetching, hbacklog]
    · simp [idlePc, hn]
  · refine ⟨{ s with pc := .dispatch true }, ?_, ⟨?_, hbacklog, hhandling, hshutdown⟩, rfl⟩
    · simp [idleAction, h, Consumer.step, hpc, Fetches]
    · simp [idlePc, hn]
  · refine ⟨{ s with pc := .loop }, ?_, ⟨?_, hbacklog, hhandling, hshutdown⟩, rfl⟩
    · simp [idleAction, h, Consumer.step, hpc, hhandling, hbacklog]
    · simp [idlePc, hn]

variable (TP) in
/-- The run in which nothing arrives. -/
def idleRun (maxConcurrent : ℕ) : ℕ → Record TP
  | 0 => ⟨init maxConcurrent, fun _ => [], fun _ => [], 0, 0, 0⟩
  | n + 1 => ((idleRun maxConcurrent n).step (idleAction n)).getD (idleRun maxConcurrent n)

theorem Idle.nextRecord (hr : Idle n r.now) : ∃ t, r.step (idleAction n) = some t ∧
    Idle (n + 1) t.now ∧ t.now.permits = r.now.permits := by
  obtain ⟨u, hu, hidle, hpermits⟩ := hr.next
  exact ⟨_, Option.map_eq_some_iff.2 ⟨u, hu, rfl⟩, hidle, hpermits⟩

theorem idle_idleRun (n : ℕ) : Idle n (idleRun TP maxConcurrent n).now ∧
    (idleRun TP maxConcurrent n).now.permits = maxConcurrent := by
  induction n with
  | zero => exact ⟨⟨rfl, rfl, rfl, rfl⟩, rfl⟩
  | succ n ih =>
    obtain ⟨t, ht, hidle, hpermits⟩ := ih.1.nextRecord
    rw [idleRun, ht, Option.getD_some]
    exact ⟨hidle, hpermits.trans ih.2⟩

theorem isRun_idleRun : (machine TP maxConcurrent).IsRun (idleRun TP maxConcurrent) idleAction where
  start := rfl
  step n := by
    have hidle : Idle n (idleRun TP maxConcurrent n).now := (idle_idleRun n).1
    obtain ⟨t, ht, -, -⟩ := hidle.nextRecord
    rw [idleRun, ht, Option.getD_some]
    exact ht

/-- There are fair runs, of any number of permits. -/
theorem exists_fair_run (hpos : 0 < maxConcurrent) : ∃ states actions,
    (machine TP maxConcurrent).IsRun states actions ∧ Fair states actions := by
  refine ⟨idleRun TP maxConcurrent, idleAction, isRun_idleRun, ?_, ?_, ?_⟩
  · intro n
    refine ⟨6 * n + 5, by omega, .inl ?_⟩
    have hmod : (6 * n + 5) % 6 = 5 := by omega
    simp [idleAction, hmod]
  · intro n
    refine ⟨6 * n + 3, by omega, .inl ?_⟩
    have hmod : (6 * n + 3) % 6 = 3 := by omega
    simp [idleAction, hmod]
  · intro n hzero
    have hpermits : (idleRun TP maxConcurrent n).now.permits = maxConcurrent := (idle_idleRun n).2
    rw [hpermits] at hzero
    exact absurd hzero (Nat.ne_of_gt hpos)

variable (TP) in
/-- **Every polled message is handled once**: whatever the consumer has done, what was polled is
what was handed over and what waits, and its permits are accounted for; and what waits in a fair
run is handed over, and fetching resumed. -/
theorem handled_once (maxConcurrent : ℕ) :
    (∀ r, (machine TP maxConcurrent).Reachable r → r.Kept maxConcurrent) ∧
      ∀ states actions, (machine TP maxConcurrent).IsRun states actions → Fair states actions →
        ∀ n, (∀ x ∈ (states n).now.backlog, ∃ m, n ≤ m ∧ (Hands x (states m).now (actions m) ∨
            Revokes x (actions m) ∨ (states m).now.Stopped)) ∧
          ((states n).now.backlog = [] → ∃ m, n ≤ m ∧ ((states m).now.paused = ∅ ∨
            (∃ records, records ≠ [] ∧ actions m = .polled records) ∨ (states m).now.Stopped)) :=
  ⟨fun _ => kept_of_reachable, fun _ _ hrun hfair _ =>
    ⟨fun _ => handed_of_waiting hrun hfair, resumed_of_nothing_waiting hrun hfair⟩⟩

end Record

end ResidentCrm.Kafka
