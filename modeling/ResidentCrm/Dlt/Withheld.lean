import ResidentCrm.Dlt.FixDeployed
import ResidentCrm.Dlt.Parked

/-!
# Packets withheld for a deploy

What an analysis does with its finding at the end: `maybe_replay` and then `maybe_park`. A packet
withheld for `NOT_DEPLOYED` alone ought to be parked, and is where the verdict names a version to
wait for (`Disposal.accounted_iff_named`). Where the fix is committed and in no version yet it names
none, and the packet is neither replayed nor parked (`uncut_fix_is_dropped`).
-/

namespace ResidentCrm.Dlt

structure Disposal (R γ : Type*) where
  replay : ReplayConfig R
  park : ParkConfig R
  store : ParkStore
  entries : List (Entry R γ)
  caseId : Text
  refId : Option Text
  check : CodeCheck
  finding : Finding R
  now : R
  basis : γ

namespace Disposal

variable {R γ : Type*} [LinearOrder R] (d : Disposal R γ)

def decision : ReplayDecision R := AutoReplay.decide d.replay d.finding d.refId (some d.check)

def parking : ParkResult × List (Entry R γ) :=
  maybePark d.park d.replay d.store d.entries d.caseId d.refId d.check d.finding d.now d.basis

/-- With another verdict the packet would be replayed. -/
structure Withheld : Prop where
  verdict : d.check.verdict = .notDeployed
  declined : d.decision.shouldReplay = false
  otherwise : (AutoReplay.decide d.replay d.finding d.refId
    (some { d.check with verdict := .unknown })).shouldReplay = true

/-- The queue is at its cap, the key is unusable, or the store fails. -/
def Excused : Prop :=
  d.park.cap ≤ d.entries.countP (·.status = .parked) ∨ usableKey d.caseId = false ∨
    d.store ≠ ⟨true, true, true⟩

def Parked : Prop :=
  d.parking.1.parked = true ∧ ∃ e ∈ d.parking.2, e.caseId = d.caseId ∧ e.status = .parked

/-- What the replay gate and the parking promise of a packet. -/
structure Accounted : Prop where
  kept : d.Withheld → ¬ d.Excused → d.Parked
  exclusive : ¬ (d.decision.shouldReplay = true ∧ d.parking.1.parked = true)
  /-- The gate and the check only remove replays. -/
  ungated : d.decision.shouldReplay = true →
    (AutoReplay.decide { d.replay with codeCheckGatesReplay := false } d.finding d.refId
      (some d.check)).shouldReplay = true
  unchecked : d.decision.shouldReplay = true →
    (AutoReplay.decide d.replay d.finding d.refId (some (unknown .off))).shouldReplay = true

/-- The verdict names a version, and the case has no entry that is released or expired. -/
def Named : Prop :=
  (∃ required ∈ d.check.evidence.requiredVersion, required ≠ []) ∧
    ∀ e ∈ d.entries.find? (·.caseId = d.caseId), e.status = .parked

end Disposal

/-! ## Parking -/

theorem present_iff {refId : Option Text} : present refId = true ↔ ∃ ref ∈ refId, ref ≠ [] := by
  cases refId <;> simp [present]

section

variable {R γ : Type*} {cap : ℕ} {entries : List (Entry R γ)} {caseId : Text}
  {refId : Option Text} {check : CodeCheck} {now : R} {basis : γ}

/-- Where nothing fails and there is room, a packet is parked if the check names a version, unless
an entry of its case is no longer waiting. -/
theorem park_iff (hkey : usableKey caseId = true) (href : present refId = true)
    (hroom : entries.countP (·.status = .parked) < cap) :
    (park cap ⟨true, true, true⟩ entries caseId refId check now basis).1.parked = true ↔
      (∃ required ∈ check.evidence.requiredVersion, required ≠ []) ∧
        ∀ e ∈ entries.find? (·.caseId = caseId), e.status = .parked := by
  obtain ⟨ref, hrefId, hne⟩ := present_iff.1 href
  have hfilter : refId.filter (· ≠ []) = some ref :=
    Option.filter_eq_some_iff.2 ⟨hrefId, by simpa using hne⟩
  unfold park
  split
  · next hnone =>
    have hunnamed : ¬ ∃ required ∈ check.evidence.requiredVersion, required ≠ [] := by
      simpa [Option.filter_eq_none_iff] using hnone
    exact iff_of_false (by simp) fun h => hunnamed h.1
  next required hrequired =>
  obtain ⟨hmem, hnonempty⟩ := Option.filter_eq_some_iff.1 hrequired
  have hnamed : ∃ required ∈ check.evidence.requiredVersion, required ≠ [] :=
    ⟨required, hmem, by simpa using hnonempty⟩
  simp only [hkey, Bool.true_eq_false, if_false, hfilter, if_true, Nat.not_le.2 hroom, hnamed,
    true_and]
  cases hfind : entries.find? (·.caseId = caseId) with
  | none => simp
  | some e =>
    simp only [Option.mem_some_iff, forall_eq', alreadyParked]
    split
    · next hwaiting => simp [hwaiting]
    · next hdone => simp [hdone]

/-- What is reported as parked waits in the store. -/
theorem exists_parked (h : (park cap ⟨true, true, true⟩ entries caseId refId check now
    basis).1.parked = true) :
    ∃ e ∈ (park cap ⟨true, true, true⟩ entries caseId refId check now basis).2,
      e.caseId = caseId ∧ e.status = .parked := by
  revert h
  unfold park
  split
  · simp
  split
  · simp
  split
  · simp
  simp only [if_true]
  cases hfind : entries.find? (·.caseId = caseId) with
  | none =>
    dsimp only
    split
    · simp
    · exact fun _ => ⟨_, List.mem_append_right _ List.mem_cons_self, rfl, rfl⟩
  | some e =>
    simp only [alreadyParked]
    split
    · next hwaiting =>
      exact fun _ => ⟨e, List.mem_of_find?_eq_some hfind, by simpa using List.find?_some hfind,
        hwaiting⟩
    · simp

end

/-! ## One disposal -/

namespace Disposal

variable {R γ : Type*} [LinearOrder R] {d : Disposal R γ}

/-- Only a verdict that gates replays withholds a packet that qualifies. -/
theorem Withheld.would (h : d.Withheld) :
    wouldReplayButForTheVersion d.replay d.finding d.refId d.check = true := by
  have hq := (AutoReplay.decide_iff.1 h.otherwise).1
  refine wouldReplayButForTheVersion_iff.2 ⟨h.verdict, ?_, hq⟩
  by_contra hgates
  have hreplayed : d.decision.shouldReplay = true :=
    AutoReplay.decide_iff.2 ⟨hq, AutoReplay.codeCheckVeto_eq_none.2 fun h => absurd h hgates⟩
  rw [h.declined] at hreplayed
  cases hreplayed

/-- A replay and a park exclude each other: the gate withholds on the verdict parking asks for. -/
theorem exclusive : ¬ (d.decision.shouldReplay = true ∧ d.parking.1.parked = true) := by
  rintro ⟨hreplay, hparked⟩
  have hwould : wouldReplayButForTheVersion d.replay d.finding d.refId d.check = true := by
    unfold parking maybePark at hparked
    split at hparked
    · cases hparked
    split at hparked
    · cases hparked
    split at hparked
    · cases hparked
    next h => simpa using h
  obtain ⟨hverdict, hgates, -⟩ := wouldReplayButForTheVersion_iff.1 hwould
  exact (AutoReplay.codeCheckVeto_eq_none.1 (AutoReplay.decide_iff.1 hreplay).2 hgates).2 hverdict

/-- The gate's settings other than the veto's decide whether a finding qualifies. -/
theorem qualifies_ungated {cfg : ReplayConfig R} {f : Finding R} {refId : Option Text}
    (h : AutoReplay.Qualifies cfg f refId) :
    AutoReplay.Qualifies { cfg with codeCheckGatesReplay := false } f refId :=
  ⟨h.enabled, h.action, h.confidence, h.corroborated, h.reviewed, h.refId⟩

/-- Where parking is on, a withheld packet that is not excused is parked exactly if a version is
named for it. -/
theorem kept_iff (hpark : d.park.enabled = true) (hwithheld : d.Withheld)
    (hexcused : ¬ d.Excused) : d.Parked ↔ d.Named := by
  have hwould := hwithheld.would
  have href := (wouldReplayButForTheVersion_iff.1 hwould).2.2.refId
  simp only [Excused, not_or, not_le, Bool.not_eq_false, not_not] at hexcused
  obtain ⟨hroom, hkey, hstore⟩ := hexcused
  have hparking : d.parking =
      Dlt.park d.park.cap ⟨true, true, true⟩ d.entries d.caseId d.refId d.check d.now d.basis := by
    unfold parking maybePark
    simp only [hpark, href, hwould, hstore, Bool.true_eq_false, if_false]
  rw [Parked, hparking]
  constructor
  · intro h
    exact (park_iff hkey href hroom).1 h.1
  · intro h
    have hparked : (Dlt.park d.park.cap ⟨true, true, true⟩ d.entries d.caseId d.refId d.check d.now
        d.basis).1.parked = true := (park_iff hkey href hroom).2 h
    exact ⟨hparked, exists_parked hparked⟩

/-- **A packet withheld for a deploy is accounted for exactly where a version is named for it.** -/
theorem accounted_iff_named (hpark : d.park.enabled = true) :
    d.Accounted ↔ (d.Withheld → ¬ d.Excused → d.Named) := by
  constructor
  · intro h hwithheld hexcused
    exact (kept_iff hpark hwithheld hexcused).1 (h.kept hwithheld hexcused)
  · intro h
    refine ⟨fun hwithheld hexcused => ?_, exclusive, fun hreplayed => ?_, fun hreplayed => ?_⟩
    · exact (kept_iff hpark hwithheld hexcused).2 (h hwithheld hexcused)
    · have hq := (AutoReplay.decide_iff.1 hreplayed).1
      exact AutoReplay.decide_iff.2 ⟨qualifies_ungated hq,
        AutoReplay.codeCheckVeto_eq_none.2 (by simp)⟩
    · have hq := (AutoReplay.decide_iff.1 hreplayed).1
      exact AutoReplay.decide_iff.2 ⟨hq, AutoReplay.codeCheckVeto_eq_none.2 (by simp [unknown])⟩

end Disposal

/-! ## A fix that is in no version yet -/

/-- The file was changed after the failure, and the version file was not. -/
def neverCut : Oracle where
  commits _ path :=
    if path = pathOfB then some [{ id := "fix".toList, timestampMs := some 200 }] else some []
  changes _ _ := some [pathOfB]
  file _ path _ := if path = pathOfB then some [] else none
  pages _ := []

def sureRedrive (o : Oracle) : Disposal ℤ Unit where
  replay := ⟨true, [.redriveAfterRecovery], some 1, false, true⟩
  park := ⟨true, 10, 0, none⟩
  store := ⟨true, true, true⟩
  entries := []
  caseId := "dlt-1".toList
  refId := some "ref-1".toList
  check := evaluate svcConfig o failureAtB (some 100) [.text "1.0.0".toList]
    [.text "1.0.0".toList]
  finding := { action := .redriveAfterRecovery, confidence := some (some 1) }
  now := 1
  basis := ()

theorem accounted_iff_named_bumpBetween : (sureRedrive bumpBetween).Accounted ↔
    ((sureRedrive bumpBetween).Withheld → ¬ (sureRedrive bumpBetween).Excused →
      (sureRedrive bumpBetween).Named) :=
  Disposal.accounted_iff_named rfl

/-- Withheld until the pods reach a version that nobody has cut, and not parked. -/
theorem uncut_fix_is_dropped : (sureRedrive neverCut).Withheld ∧
    ¬ (sureRedrive neverCut).Accounted := by
  have hwithheld : (sureRedrive neverCut).Withheld := ⟨by decide, by decide, by decide⟩
  refine ⟨hwithheld, fun h => ?_⟩
  have hexcused : ¬ (sureRedrive neverCut).Excused := by
    unfold Disposal.Excused
    decide
  have hnot : (sureRedrive neverCut).parking.1.parked ≠ true := by decide
  exact hnot (h.kept hwithheld hexcused).1

end ResidentCrm.Dlt
