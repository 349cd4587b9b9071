import ResidentCrm.Lib.Json

/-!
# Windows, targets and gaps

`log_pipeline/types.py`, with the targets of `sources/k8s/discovery.py`.
-/

namespace ResidentCrm.Logs

/-! ## Time -/

/-- An aware `datetime`: its instant in microseconds, and its zone in seconds east. -/
structure Moment where
  instant : ℤ
  offset : ℤ
deriving DecidableEq, Repr

namespace Moment

/-- What `isoformat(timespec="seconds")` shows. -/
def toSecond (m : Moment) : Moment := { m with instant := m.instant - m.instant % 1000000 }

/-- `astimezone(like.tzinfo)`. -/
def astimezone (m like : Moment) : Moment := { m with offset := like.offset }

/-- `m - timedelta(microseconds=span)`. -/
def less (m : Moment) (span : ℤ) : Moment := { m with instant := m.instant - span }

theorem le_toSecond_iff {m : Moment} :
    m.instant ≤ m.toSecond.instant ↔ m.instant % 1000000 = 0 := by
  have hnonneg := Int.emod_nonneg m.instant (show (1000000 : ℤ) ≠ 0 by decide)
  have hinstant : m.toSecond.instant = m.instant - m.instant % 1000000 := rfl
  rw [hinstant]
  omega

theorem toSecond_of_whole {m : Moment} (h : m.instant % 1000000 = 0) :
    m.toSecond.instant = m.instant := by
  have hinstant : m.toSecond.instant = m.instant - m.instant % 1000000 := rfl
  rw [hinstant, h, Int.sub_zero]

end Moment

/-- `datetime.fromisoformat`, taken as UTC where the text says no zone, and `isoformat`. -/
structure Clock where
  fromisoformat : Text → Option Moment
  isoformat : Moment → Text
  fromisoformat_isoformat : ∀ m, fromisoformat (isoformat m) = some m
  not_zulu : ∀ m, 'Z' ∉ isoformat m
  fromisoformat_nil : fromisoformat [] = none

/-- `raw.replace("Z", "+00:00")`. -/
def withOffset (raw : Text) : Text :=
  raw.flatMap fun c => if c = 'Z' then "+00:00".toList else [c]

/-- `_parse_record_timestamp`, and `_instant` of `retrieval.py`. -/
def Clock.parseRecordTimestamp (clock : Clock) (raw : Text) : Option Moment :=
  if raw = [] then none else clock.fromisoformat (withOffset raw)

theorem withOffset_eq {raw : Text} (h : 'Z' ∉ raw) : withOffset raw = raw := by
  induction raw with
  | nil => rfl
  | cons c raw ih =>
    have hc : c ≠ 'Z' := fun hc => h (hc ▸ List.mem_cons_self)
    have hraw := ih fun hraw => h (List.mem_cons_of_mem _ hraw)
    unfold withOffset at hraw ⊢
    rw [List.flatMap_cons, hraw, if_neg hc]
    rfl

/-- **What `isoformat` writes is read back.** -/
@[simp] theorem Clock.parse_isoformat (clock : Clock) (m : Moment) :
    clock.parseRecordTimestamp (clock.isoformat m) = some m := by
  have hread := clock.fromisoformat_isoformat m
  have hne : clock.isoformat m ≠ [] := by
    intro h
    rw [h, clock.fromisoformat_nil] at hread
    cases hread
  unfold parseRecordTimestamp
  rw [if_neg hne, withOffset_eq (clock.not_zulu m), hread]

/-- A window: how far back to look, in microseconds and in seconds, and until when; the rejection it
is anchored on, and how far back the trace must reach. -/
structure TimeWindow where
  lookBack : ℤ
  seconds : ℕ
  upUntil : Option Moment := none
  anchor : Option Moment := none
  coverFrom : Option Moment := none
deriving DecidableEq, Repr

namespace TimeWindow

def startTime (window : TimeWindow) (now : Moment) : Moment := now.less window.lookBack

def coverageStart (window : TimeWindow) (now : Moment) : Moment :=
  window.coverFrom.getD (window.startTime now)

/-- Whether a record is newer than the window's end; one that cannot be dated is not. -/
def excludes (clock : Clock) (window : TimeWindow) (timestamp : Text) : Bool :=
  match window.upUntil, clock.parseRecordTimestamp timestamp with
  | some last, some parsed => last.instant < parsed.instant
  | _, _ => false

end TimeWindow

/-! ## Targets and gaps -/

/-- A container of a pod whose logs are read. -/
structure PodTarget where
  podNamespace : Text
  podName : Text
  container : Text
  restartCount : ℕ
  startTime : Option Moment
deriving DecidableEq, Repr

namespace PodTarget

def podKey (target : PodTarget) : Text × Text := (target.podNamespace, target.podName)

def targetKey (target : PodTarget) : Text × Text × Text :=
  (target.podNamespace, target.podName, target.container)

def restarted (target : PodTarget) : Bool := 0 < target.restartCount

end PodTarget

inductive GapType where
  | logRotation
  | podReplaced
  | truncated
  | podVanished
  | levelParseDegraded
  | sourceFallback
  | serviceUnavailable
deriving DecidableEq, Repr

structure EvidenceGap where
  gapType : GapType
  detail : Text
  context : List (Text × Json)

end ResidentCrm.Logs
