import ResidentCrm.Lib.Rfc3339
import ResidentCrm.Logs.Coverage
import Mathlib.Data.Char
import Mathlib.Data.List.Lex

/-!
# The merged trace

`read_all` sorts the records of all pods by the text of their timestamps, and on equal texts a pod's
previous instance before its current one. Text order is time order only as far as offsets and
fractions agree; the trace is chronological exactly when they agree for its records.
-/

namespace ResidentCrm.Logs

open Rfc3339

universe u v

section

variable {σ : Type u} {ρ : Type v} (s : Settings σ ρ)

/-- The instant that a record's timestamp denotes. -/
def LogRecord.instant (r : LogRecord ρ) : Option ℚ := instantOf (s.timestamp r.parsed)

/-- A record may stand before another: it is not later, and at one instant a pod's previous instance
is first. -/
def InTime (a b : LogRecord ρ) : Prop :=
  ∀ x ∈ a.instant s, ∀ y ∈ b.instant s, x ≤ y ∧ (x = y → a.podName = b.podName →
    ¬(a.containerInstance = .current ∧ b.containerInstance = .previous))

/-- The records that a fetch keeps, as the pods' outcomes joined. -/
def keptRecords (transport : Transport) (window : TimeWindow) {targets : List PodTarget}
    (run : PoolRun targets) : List (LogRecord ρ) :=
  (joined s transport window run).records.filter fun r =>
    !window.excludes s.clock (s.timestamp r.parsed)

/-- The records of one instance kind with one timestamp. -/
def sameStamp (text : Text) (wanted : Instance) (r : LogRecord ρ) : Bool :=
  s.timestamp r.parsed = text ∧ r.containerInstance = wanted

/-- A trace is ordered by the instants of its records, and records with equal timestamps stand as
their streams had them. -/
structure Chronological (kept trace : List (LogRecord ρ)) : Prop where
  ordered : trace.Pairwise (InTime s)
  streams : ∀ text wanted,
    trace.filter (sameStamp s text wanted) = kept.filter (sameStamp s text wanted)

/-- Where the timestamps of two records differ as texts, their order is that of the instants. -/
def TextsAgree (kept : List (LogRecord ρ)) : Prop :=
  ∀ a ∈ kept, ∀ b ∈ kept, s.timestamp a.parsed < s.timestamp b.parsed → InTime s a b

/-! ## The key -/

theorem orderedBefore_iff {a b : LogRecord ρ} :
    orderedBefore s a b = true ↔ s.timestamp a.parsed < s.timestamp b.parsed ∨
      s.timestamp a.parsed = s.timestamp b.parsed ∧
        (a.containerInstance = .previous ∨ b.containerInstance = .current) := by
  simp [orderedBefore]

theorem orderedBefore_total (a b : LogRecord ρ) :
    orderedBefore s a b = true ∨ orderedBefore s b a = true := by
  simp only [orderedBefore_iff]
  rcases lt_trichotomy (s.timestamp a.parsed) (s.timestamp b.parsed) with hlt | heq | hgt
  · exact .inl (.inl hlt)
  · cases ha : a.containerInstance with
    | previous => exact .inl (.inr ⟨heq, .inl rfl⟩)
    | current => exact .inr (.inr ⟨heq.symm, .inr rfl⟩)
  · exact .inr (.inl hgt)

theorem orderedBefore_trans {a b c : LogRecord ρ} (hab : orderedBefore s a b = true)
    (hbc : orderedBefore s b c = true) : orderedBefore s a c = true := by
  rw [orderedBefore_iff] at *
  obtain hab | ⟨heq, hab⟩ := hab
  · obtain hbc | ⟨heq', -⟩ := hbc
    · exact .inl (hab.trans hbc)
    · exact .inl (heq' ▸ hab)
  · obtain hbc | ⟨heq', hbc⟩ := hbc
    · exact .inl (heq ▸ hbc)
    · refine .inr ⟨heq.trans heq', ?_⟩
      obtain hab | hab := hab
      · exact .inl hab
      · obtain hbc | hbc := hbc
        · rw [hab] at hbc
          cases hbc
        · exact .inr hbc

/-- Records that may stand either way have one timestamp and are of one kind of instance. -/
theorem same_of_orderedBefore {a b : LogRecord ρ} (hab : orderedBefore s a b = true)
    (hba : orderedBefore s b a = true) :
    s.timestamp a.parsed = s.timestamp b.parsed ∧ a.containerInstance = b.containerInstance := by
  rw [orderedBefore_iff] at hab hba
  obtain hab | ⟨heq, hab⟩ := hab
  · obtain hba | ⟨heq', -⟩ := hba
    · exact absurd hba hab.asymm
    · exact absurd hab (heq' ▸ lt_irrefl _)
  · obtain hba | ⟨-, hba⟩ := hba
    · exact absurd hba (heq ▸ lt_irrefl _)
    · refine ⟨heq, ?_⟩
      cases ha : a.containerInstance <;> cases hb : b.containerInstance <;> simp_all

theorem inTime_of_same {a b : LogRecord ρ} (htext : s.timestamp a.parsed = s.timestamp b.parsed)
    (hinstance : a.containerInstance = b.containerInstance) : InTime s a b := by
  intro x hx y hy
  rw [LogRecord.instant, htext] at hx
  obtain rfl := Option.mem_unique hx hy
  refine ⟨Rat.le_refl, fun _ _ h => ?_⟩
  rw [hinstance, h.2] at h
  exact absurd h.1 (by decide)

/-! ## The sort -/

variable (transport : Transport) (window : TimeWindow) {targets : List PodTarget}
  (run : PoolRun targets)

theorem readAll_sorted :
    (readAll s transport window run).records.Pairwise fun a b => orderedBefore s a b = true := by
  have : Std.Total fun a b : LogRecord ρ => orderedBefore s a b = true := ⟨orderedBefore_total s⟩
  have : IsTrans (LogRecord ρ) fun a b => orderedBefore s a b = true :=
    ⟨fun _ _ _ => orderedBefore_trans s⟩
  exact (List.pairwise_insertionSort _ _).sublist List.filter_sublist

theorem readAll_perm :
    (readAll s transport window run).records.Perm (keptRecords s transport window run) :=
  (List.perm_insertionSort _ _).filter _

/-- What has one place in the order stays as it was. -/
theorem readAll_streams (text : Text) (wanted : Instance) :
    (readAll s transport window run).records.filter (sameStamp s text wanted) =
      (keptRecords s transport window run).filter (sameStamp s text wanted) := by
  have hties : ((keptRecords s transport window run).filter (sameStamp s text wanted)).Pairwise
      fun a b => orderedBefore s a b = true := by
    refine List.pairwise_of_forall_mem_list fun a ha b hb => ?_
    have hsame := of_decide_eq_true (List.mem_filter.1 ha).2
    have hsame' := of_decide_eq_true (List.mem_filter.1 hb).2
    rw [orderedBefore_iff, hsame.1, hsame'.1, hsame.2, hsame'.2]
    cases wanted <;> simp
  have hsub := List.sublist_insertionSort hties
    (List.filter_sublist.trans (List.filter_sublist (l := (joined s transport window run).records)))
  have hall : (((keptRecords s transport window run).filter (sameStamp s text wanted)).filter
      fun r => !window.excludes s.clock (s.timestamp r.parsed)) =
        (keptRecords s transport window run).filter (sameStamp s text wanted) :=
    List.filter_eq_self.2 fun r hr => (List.mem_filter.1 (List.mem_of_mem_filter hr)).2
  have hkept := (hsub.filter fun r => !window.excludes s.clock (s.timestamp r.parsed)).filter
    (sameStamp s text wanted)
  rw [hall, List.filter_filter] at hkept
  simp only [Bool.and_self] at hkept
  exact (hkept.eq_of_length ((readAll_perm s transport window run).filter _).length_eq.symm).symm

/-- **The merged trace is chronological** exactly when the texts of its timestamps sort as the
instants that they denote. -/
theorem chronological_iff :
    Chronological s (keptRecords s transport window run) (readAll s transport window run).records ↔
      TextsAgree s (keptRecords s transport window run) := by
  have hsorted := readAll_sorted s transport window run
  have hperm := readAll_perm s transport window run
  constructor
  · intro h a ha b hb hlt
    -- the two stand in the trace one way or the other, and the sort leaves one way only
    have hforth : (readAll s transport window run).records.Pairwise fun x y =>
        s.timestamp x.parsed < s.timestamp y.parsed → InTime s x y := by
      refine h.ordered.imp ?_
      intro x y hxy _
      exact hxy
    have hback : (readAll s transport window run).records.Pairwise (flip fun x y =>
        s.timestamp x.parsed < s.timestamp y.parsed → InTime s x y) := by
      refine hsorted.imp fun {x y} hxy hyx => ?_
      obtain hxy | ⟨heq, -⟩ := (orderedBefore_iff s).1 hxy
      · exact absurd hyx hxy.asymm
      · exact absurd hyx (heq ▸ lt_irrefl _)
    exact List.Pairwise.forall_of_forall_of_flip
      (fun x _ hself => absurd hself (lt_irrefl _)) hforth hback
      (hperm.mem_iff.2 ha) (hperm.mem_iff.2 hb) hlt
  · intro h
    refine ⟨hsorted.imp_of_mem fun {a b} ha hb hab => ?_, readAll_streams s transport window run⟩
    by_cases hback : orderedBefore s b a = true
    · obtain ⟨htext, hinstance⟩ := same_of_orderedBefore s hab hback
      exact inTime_of_same s htext hinstance
    · obtain hlt | ⟨heq, hfirst⟩ := (orderedBefore_iff s).1 hab
      · exact h a (hperm.mem_iff.1 ha) b (hperm.mem_iff.1 hb) hlt
      · intro x hx y hy
        rw [LogRecord.instant, heq] at hx
        obtain rfl := Option.mem_unique hx hy
        refine ⟨Rat.le_refl, fun _ _ hno => ?_⟩
        rw [hno.1, hno.2] at hfirst
        simp at hfirst

end

/-! ## Two nodes in two zones -/

/-- The second pod's line is the earlier one. -/
def twoZones : Transport := .live fun target _ =>
  if target.podName = "bio-1".toList then
    ⟨[⟨34, "2026-08-25T09:50:00Z INFO rejected\n".toList⟩], none⟩
  else ⟨[⟨39, "2026-08-25T14:52:33+05:30 INFO received\n".toList⟩], none⟩

theorem timestamps_twoZones :
    (readAll plainSettings twoZones rejectedAtFive
        (PoolRun.inTime (plainLimits.discoverTargets twoPods).targets)).records.map
      (plainSettings.timestamp ·.parsed) =
        ["2026-08-25T09:50:00Z".toList, "2026-08-25T14:52:33+05:30".toList] := by decide

/-- Ten to ten in Greenwich stands before what was half an hour earlier in India. -/
theorem later_line_first :
    ¬Chronological plainSettings
      (keptRecords plainSettings twoZones rejectedAtFive
        (PoolRun.inTime (plainLimits.discoverTargets twoPods).targets))
      (readAll plainSettings twoZones rejectedAtFive
        (PoolRun.inTime (plainLimits.discoverTargets twoPods).targets)).records := by
  intro h
  have hinstants : ((readAll plainSettings twoZones rejectedAtFive
      (PoolRun.inTime (plainLimits.discoverTargets twoPods).targets)).records.map
        (plainSettings.timestamp ·.parsed)).Pairwise
          fun t u => ∀ x ∈ instantOf t, ∀ y ∈ instantOf u, x ≤ y :=
    List.pairwise_map.2 (h.ordered.imp fun hab x hx y hy => (hab x hx y hy).1)
  rw [timestamps_twoZones, List.pairwise_pair] at hinstants
  have hfirst : instantOf "2026-08-25T09:50:00Z".toList = some 1787651400 := by decide +kernel
  have hsecond : instantOf "2026-08-25T14:52:33+05:30".toList = some 1787649753 := by decide +kernel
  exact absurd (hinstants _ hfirst _ hsecond) (by decide)

end ResidentCrm.Logs
