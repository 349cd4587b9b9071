import ResidentCrm.Dlt.AutoReplay
import Mathlib.Data.List.Sort

/-!
# Parked replays

`dlt/parked.py`: a packet whose fix has not deployed waits as one entry under its case id, and
`release_ready` replays the entries whose required version the running ones have reached. Of an
entry only what a release reads is kept; `basis` is no part of it, and says what its case was vetted
on.
-/

namespace ResidentCrm.Dlt

inductive ParkStatus where
  | parked
  | released
  | expired
deriving DecidableEq, Repr

/-- `parked_replay.json`. -/
structure Entry (R γ : Type*) where
  caseId : Text
  refId : Text
  requiredVersion : Text
  parkedAt : R
  status : ParkStatus
  basis : γ
deriving DecidableEq

structure ParkConfig (R : Type*) where
  enabled : Bool
  cap : ℕ
  ttl : R
  pattern : Option Pattern

structure ParkStore where
  loads : Bool
  lists : Bool
  creates : Bool
deriving DecidableEq, Repr

inductive ParkReason where
  | off
  | noRefId
  | notReplayedAnyway
  | noVersion
  | unusableKey
  | atCap (cap : ℕ)
  | failed
  | alreadyWaiting (required : Text)
  | already (status : ParkStatus)
  | waiting (required : Text)
deriving DecidableEq, Repr

structure ParkResult where
  parked : Bool
  reason : ParkReason
deriving DecidableEq, Repr

/-- `_usable_key`: up to 128 letters, digits and signs that may stand in a storage path. -/
def usableKey (caseId : Text) : Bool :=
  let key := Text.strip caseId
  1 ≤ key.length && key.length ≤ 128 && key.all fun c => c.isAlphanum || c ∈ "_.:-".toList

section

variable {R γ : Type*}

def alreadyParked (e : Entry R γ) : ParkResult :=
  if e.status = .parked then ⟨true, .alreadyWaiting e.requiredVersion⟩
  else ⟨false, .already e.status⟩

/-- `park`. `create_json` is create-only: an entry that is there stays. -/
def park (cap : ℕ) (store : ParkStore) (entries : List (Entry R γ)) (caseId : Text)
    (refId : Option Text) (check : CodeCheck) (now : R) (basis : γ) :
    ParkResult × List (Entry R γ) :=
  match check.evidence.requiredVersion.filter (· ≠ []) with
  | none => (⟨false, .noVersion⟩, entries)
  | some required =>
    if usableKey caseId = false then (⟨false, .unusableKey⟩, entries)
    else match refId.filter (· ≠ []) with
      | none => (⟨false, .noRefId⟩, entries)
      | some ref =>
        match (if store.loads then entries.find? (·.caseId = caseId) else none) with
        | some e => (alreadyParked e, entries)
        | none =>
          let waiting := if store.lists then entries.countP (·.status = .parked) else 0
          if cap ≤ waiting then (⟨false, .atCap cap⟩, entries)
          else if store.creates = false then (⟨false, .failed⟩, entries)
          else match entries.find? (·.caseId = caseId) with
            | some e => (alreadyParked e, entries)
            | none =>
              (⟨true, .waiting required⟩,
                entries ++ [⟨caseId, ref, required, now, .parked, basis⟩])

/-- An entry of the store after `park` was there before, or is the new one. -/
theorem mem_park {cap : ℕ} {store : ParkStore} {entries : List (Entry R γ)} {caseId : Text}
    {refId : Option Text} {check : CodeCheck} {now : R} {basis : γ} {e : Entry R γ}
    (h : e ∈ (park cap store entries caseId refId check now basis).2) :
    e ∈ entries ∨ e.basis = basis ∧ e.refId ∈ refId ∧ e.refId ≠ [] := by
  unfold park at h
  split at h
  · exact .inl h
  next required _ =>
  split at h
  · exact .inl h
  split at h
  · exact .inl h
  next ref href =>
  split at h
  · exact .inl h
  dsimp only at h
  -- whatever the count of what waits, only the last of the cases writes
  generalize (if store.lists then entries.countP (·.status = .parked) else 0) = waiting at h
  split at h
  · exact .inl h
  split at h
  · exact .inl h
  split at h
  · exact .inl h
  rcases List.mem_append.1 h with h | h
  · exact .inl h
  · obtain rfl := List.mem_singleton.1 h
    obtain ⟨hmem, hne⟩ := Option.filter_eq_some_iff.1 href
    exact .inr ⟨rfl, hmem, by simpa using hne⟩

variable [LinearOrder R]

def wouldReplayButForTheVersion (cfg : ReplayConfig R) (f : Finding R) (refId : Option Text)
    (check : CodeCheck) : Bool :=
  if check.verdict ≠ .notDeployed then false
  else if cfg.codeCheckGatesReplay = false then false
  else (AutoReplay.decide cfg f refId none).shouldReplay

/-- Parking asks for everything a replay does, but the version. -/
theorem wouldReplayButForTheVersion_iff {cfg : ReplayConfig R} {f : Finding R}
    {refId : Option Text} {check : CodeCheck} :
    wouldReplayButForTheVersion cfg f refId check = true ↔ check.verdict = .notDeployed ∧
      cfg.codeCheckGatesReplay = true ∧ AutoReplay.Qualifies cfg f refId := by
  unfold wouldReplayButForTheVersion
  split
  · next hverdict => simp [hverdict]
  next hverdict =>
  split
  · next hgates => simp [hgates]
  next hgates =>
  rw [AutoReplay.decide_iff]
  simp only [not_not.1 hverdict, Bool.not_eq_false] at hgates ⊢
  simp only [hgates, AutoReplay.codeCheckVeto_none, and_true, true_and]

def maybePark (cfg : ParkConfig R) (replay : ReplayConfig R) (store : ParkStore)
    (entries : List (Entry R γ)) (caseId : Text) (refId : Option Text) (check : CodeCheck)
    (f : Finding R) (now : R) (basis : γ) : ParkResult × List (Entry R γ) :=
  if cfg.enabled = false then (⟨false, .off⟩, entries)
  else if present refId = false then (⟨false, .noRefId⟩, entries)
  else if wouldReplayButForTheVersion replay f refId check = false then
    (⟨false, .notReplayedAnyway⟩, entries)
  else park cfg.cap store entries caseId refId check now basis

/-- What is parked would have been replayed but for the version. -/
theorem mem_maybePark {cfg : ParkConfig R} {replay : ReplayConfig R} {store : ParkStore}
    {entries : List (Entry R γ)} {caseId : Text} {refId : Option Text} {check : CodeCheck}
    {f : Finding R} {now : R} {basis : γ} {e : Entry R γ}
    (h : e ∈ (maybePark cfg replay store entries caseId refId check f now basis).2) :
    e ∈ entries ∨ e.basis = basis ∧ e.refId ∈ refId ∧ e.refId ≠ [] ∧
      AutoReplay.Qualifies replay f refId := by
  unfold maybePark at h
  split at h
  · exact .inl h
  split at h
  · exact .inl h
  split at h
  · exact .inl h
  next hwould =>
  rcases mem_park h with h | ⟨hb, href, hne⟩
  · exact .inl h
  · have hq := (wouldReplayButForTheVersion_iff.1 (by simpa using hwould)).2.2
    exact .inr ⟨hb, href, hne, hq⟩

/-! ## Releasing -/

inductive ParkedStanding where
  | expired
  | unknown
  | waiting
  | ready
deriving DecidableEq, Repr

variable [Sub R] [Zero R]

def Entry.since (e : Entry R γ) (now : R) : R := if e.parkedAt = 0 then now else e.parkedAt

/-- `versions.at_least` of the lowest running version and the one the entry requires. -/
def Entry.satisfied (e : Entry R γ) (pattern : Option Pattern) (running : Option Version) :
    Option Bool :=
  running.bind fun low => atLeast pattern (.parsed low) (.text e.requiredVersion)

def parkedStanding (cfg : ParkConfig R) (running : Option Version) (now : R) (e : Entry R γ) :
    ParkedStanding :=
  if 0 < cfg.ttl ∧ cfg.ttl < now - e.since now then .expired
  else match e.satisfied cfg.pattern running with
    | none => .unknown
    | some false => .waiting
    | some true => .ready

/-- `list_parked`: what waits, oldest first. -/
def listParked (entries : List (Entry R γ)) : List (Entry R γ) :=
  (entries.filter (·.status = .parked)).insertionSort (·.parkedAt ≤ ·.parkedAt)

/-- What `release_ready` is given: the running versions, the time, whether it only reports, and for
each case whether the replay tool queues it and whether its entry can be written. -/
structure Release (R : Type*) where
  cfg : ParkConfig R
  running : List Operand
  now : R
  dryRun : Bool
  queues : Text → Bool
  marks : Text → Bool

/-- The entries a release hands to the replay tool, which needs their refId. -/
def Release.replayed (r : Release R) (entries : List (Entry R γ)) : List (Entry R γ) :=
  if r.dryRun then []
  else (listParked entries).filter fun e =>
    parkedStanding r.cfg (lowest r.cfg.pattern r.running) r.now e = .ready ∧ e.refId ≠ []

def Release.mark (r : Release R) (e : Entry R γ) : Entry R γ :=
  if r.dryRun ∨ e.status ≠ .parked ∨ r.marks e.caseId = false then e
  else match parkedStanding r.cfg (lowest r.cfg.pattern r.running) r.now e with
    | .expired => { e with status := .expired }
    | .ready => if e.refId ≠ [] ∧ r.queues e.caseId then { e with status := .released } else e
    | .unknown | .waiting => e

theorem mem_replayed {r : Release R} {entries : List (Entry R γ)} {e : Entry R γ} :
    e ∈ r.replayed entries ↔ r.dryRun = false ∧ e ∈ entries ∧ e.status = .parked ∧
      parkedStanding r.cfg (lowest r.cfg.pattern r.running) r.now e = .ready ∧ e.refId ≠ [] := by
  unfold Release.replayed listParked
  cases r.dryRun <;> simp [List.mem_insertionSort, and_assoc]

/-- A release changes nothing of an entry but its status. -/
theorem mark_eq (r : Release R) (e : Entry R γ) :
    (r.mark e).refId = e.refId ∧ (r.mark e).basis = e.basis := by
  unfold Release.mark
  split
  · exact ⟨rfl, rfl⟩
  split
  · exact ⟨rfl, rfl⟩
  · split <;> exact ⟨rfl, rfl⟩
  · exact ⟨rfl, rfl⟩
  · exact ⟨rfl, rfl⟩

/-- A ready entry: the lowest running version is not behind what it requires. -/
theorem parkedStanding_ready {cfg : ParkConfig R} {running : Option Version} {now : R}
    {e : Entry R γ} (h : parkedStanding cfg running now e = .ready) :
    ∃ low required, running = some low ∧
      parse cfg.pattern e.requiredVersion = some required ∧ ¬ low.Behind required := by
  unfold parkedStanding at h
  split at h
  · cases h
  split at h
  · cases h
  · cases h
  next hsat =>
  obtain ⟨low, hlow, hat⟩ := Option.bind_eq_some_iff.1 hsat
  obtain ⟨a, required, ha, hrequired, hnot⟩ := atLeast_eq_some_true.1 hat
  obtain rfl : low = a := Option.some.inj ha
  exact ⟨low, required, hlow, hrequired, hnot⟩

end

end ResidentCrm.Dlt
