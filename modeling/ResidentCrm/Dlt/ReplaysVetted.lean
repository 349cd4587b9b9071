import ResidentCrm.Dlt.ReplayPolicy

/-!
# Replays within the policy

A finding that qualifies is under its ceilings and over the threshold exactly where these are
numbers (`Basis.numeric_iff`), and what is parked qualifies (`vetted_step`). So a step attempts only
what the policy allows exactly where it is `Within`, and a run where all its steps are
(`allowed_iff_within`). The running versions of a release are the way out of it: `lowest` of "1.0.0"
and "1.0.0-release.2" is the first, which ties with every build of its core (`straddling_release`).
-/

namespace ResidentCrm.Dlt

/-! ## The running versions -/

section

variable {R : Type*} [LinearOrder R] [Zero R] [Sub R]

/-- The running versions are all at the version a released entry requires, unless they straddle
it. -/
theorem Release.cleared_iff {r : Release R} {entries : List (Entry R (Basis R))}
    {e : Entry R (Basis R)} (he : e ∈ r.replayed entries) :
    (r.running ≠ [] ∧ ∀ x ∈ r.running, atLeast r.cfg.pattern x (.text e.requiredVersion) =
      some true) ↔ ¬ r.Straddles e.requiredVersion := by
  obtain ⟨-, -, -, hready, -⟩ := mem_replayed.1 he
  obtain ⟨low, required, hlow, hrequired, hnot⟩ := parkedStanding_ready hready
  obtain ⟨⟨y, hy, -⟩, hleast⟩ := lowest_spec hlow
  constructor
  · rintro ⟨-, hall⟩ ⟨-, -, b, hb, -, -, x, hx, a, ha, hkey, hbuilds⟩
    obtain ⟨a', b', ha', hb', hbehind⟩ := atLeast_eq_some_true.1 (hall x hx)
    obtain rfl : a = a' := Option.some.inj (ha.symm.trans ha')
    obtain rfl : b = b' := Option.some.inj (hb.symm.trans hb')
    exact hbehind (.inr ⟨hkey, hbuilds⟩)
  · intro hstraddles
    refine ⟨List.ne_nil_of_mem hy, fun x hx => ?_⟩
    obtain ⟨a, ha, halow⟩ := hleast x hx
    refine atLeast_eq_some_true.2 ⟨a, required, ha, hrequired, fun hbehind => hstraddles ?_⟩
    obtain ⟨hkey, m, hm, n, hn, hmn⟩ :=
      Rank.counters_of_behind halow (Rank.key_le_of_not_behind hnot) hbehind
    have hlowkey : low.rank.key = required.rank.key :=
      le_antisymm (hkey ▸ Rank.key_le_of_not_behind halow) (Rank.key_le_of_not_behind hnot)
    refine ⟨low, hlow, required, hrequired, ?_, hlowkey, x, hx, a, ha, hkey, m, hm, n, hn, hmn⟩
    -- a build of the lowest would be at the required one, and the other running version at it
    cases hbuild : low.build with
    | none => rfl
    | some k =>
      have hkn : ¬ k < n := fun h => hnot (.inr ⟨hlowkey, k, hbuild, n, hn, h⟩)
      have hmk : ¬ m < k := fun h =>
        halow (.inr ⟨hkey.trans hlowkey.symm, m, hm, k, hbuild, h⟩)
      omega

end

variable {ι R : Type*} [DecidableEq ι] [LinearOrder R] [One R] {mul : Num R → Num R → Num R}

/-! ## Numbers -/

/-- A finding that qualifies has a confidence at the threshold and under every ceiling exactly where
numbers were compared. -/
theorem Basis.numeric_iff {b : Basis R} {refId : Option Text}
    (hq : AutoReplay.Qualifies b.replay (b.finding mul) refId) :
    (∃ x ∈ (b.finding mul).confidence, b.replay.threshold.Le x ∧
      Under b.ceilings b.occurrence b.given.reviewerApproved x) ↔ b.Numeric mul := by
  obtain ⟨x, hx, hnot⟩ := hq.confidence
  constructor
  · rintro ⟨y, hy, hthreshold, hunder⟩
    have hnumbered := (under_applyPolicy_iff hy).1 ⟨hthreshold.ne_none, hunder⟩
    obtain ⟨c, hc, -⟩ := hthreshold
    exact ⟨Option.ne_none_iff_exists'.2 ⟨c, hc⟩, hnumbered⟩
  · rintro ⟨hthreshold, hnumbered⟩
    obtain ⟨hne, hunder⟩ := (under_applyPolicy_iff hx).2 hnumbered
    exact ⟨x, hx, Num.le_of_not_lt hne hthreshold hnot, hunder⟩

theorem allowed_iff (t : Attempt R) {refId : Option Text}
    (hq : AutoReplay.Qualifies t.basis.replay (t.basis.finding mul) refId) :
    t.Allowed mul ↔ t.enabled = true ∧ t.basis.Numeric mul ∧ t.refId ≠ [] ∧ t.Cleared := by
  constructor
  · intro h
    exact ⟨h.enabled, (Basis.numeric_iff hq).1 h.confidence, h.refId, h.cleared⟩
  · rintro ⟨henabled, hnumeric, href, hcleared⟩
    exact {
      enabled := henabled
      action := hq.action
      confidence := (Basis.numeric_iff hq).2 hnumeric
      corroborated := fun hunverifiable => hq.corroborated (unverifiable_mem hunverifiable)
      refId := href
      reviewed := fun hunreviewed => hq.reviewed (unreviewed_mem hunreviewed)
      cleared := hcleared }

/-! ## Direct replays -/

theorem Analysis.clears_iff {a : Analysis R} {b : Basis R} :
    a.clears mul b = true ↔ AutoReplay.Qualifies b.replay (b.finding mul) a.refId ∧
      (b.replay.codeCheckGatesReplay = true →
        a.check.verdict ≠ .noChange ∧ a.check.verdict ≠ .notDeployed) := by
  rw [Analysis.clears, AutoReplay.decide_iff, AutoReplay.codeCheckVeto_eq_none]

theorem getD_ne_nil {refId : Option Text} (h : present refId = true) : refId.getD [] ≠ [] := by
  cases refId with
  | none => cases h
  | some s => simpa [present] using h

/-- A direct replay is allowed exactly where numbers were compared. -/
theorem Analysis.attempts_allowed_iff {a : Analysis R} {b : Basis R} :
    (∀ t ∈ a.attempts mul b, t.Allowed mul) ↔ (a.clears mul b = true → b.Numeric mul) := by
  unfold Analysis.attempts
  split
  · next hclears =>
    obtain ⟨hq, hveto⟩ := Analysis.clears_iff.1 hclears
    have henabled : Attempt.enabled ⟨b, a.refId.getD [], .direct a.check⟩ = true := by
      simp [Attempt.enabled, hq.enabled]
    simp only [List.mem_singleton, forall_eq, hclears, true_imp_iff]
    rw [allowed_iff _ hq]
    exact ⟨fun h => h.2.1, fun h => ⟨henabled, h, getD_ne_nil hq.refId, hveto⟩⟩
  · next hclears => simp [hclears]

/-! ## Runs -/

/-- What is parked qualifies. -/
def Vetted (mul : Num R → Num R → Num R) (e : Entry R (Basis R)) : Prop :=
  AutoReplay.Qualifies e.basis.replay (e.basis.finding mul) (some e.refId)

variable [Zero R]

theorem Analysis.finish_parked {a : Analysis R} {s : State ι R} {i : ι} {h : Held R}
    {e : Entry R (Basis R)} (he : e ∈ (a.finish mul s i h).parked) :
    e ∈ s.parked ∨ Vetted mul e := by
  unfold Analysis.finish at he
  split at he
  · exact .inl he
  next b provenance hvetted =>
  rcases mem_maybePark he with he | ⟨rfl, href, -, hq⟩
  · exact .inl he
  · obtain ⟨x, -, hx⟩ := Option.map_eq_some_iff.1 hvetted
    have hreplay : a.policy.replay = e.basis.replay := congrArg (·.1.replay) hx
    rw [hreplay, Option.mem_def.1 href] at hq
    exact .inr hq

variable [Sub R]

/-- A released replay is allowed exactly where auto-replay is still enabled, numbers were compared
and the running versions do not straddle the required one. -/
theorem Release.attempts_allowed_iff {r : Release R} {enabled : Bool}
    {entries : List (Entry R (Basis R))} (hv : ∀ e ∈ entries, Vetted mul e) :
    (∀ t ∈ r.attempts enabled entries, t.Allowed mul) ↔ ∀ e ∈ r.replayed entries,
      enabled = true ∧ e.basis.Numeric mul ∧ ¬ r.Straddles e.requiredVersion := by
  simp only [Release.attempts, List.mem_map, forall_exists_index, and_imp, forall_apply_eq_imp_iff₂]
  refine forall₂_congr fun e he => ?_
  obtain ⟨-, hmem, -, -, href⟩ := mem_replayed.1 he
  have hq : AutoReplay.Qualifies e.basis.replay (e.basis.finding mul) (some e.refId) := hv e hmem
  rw [← Release.cleared_iff he, allowed_iff _ hq]
  simp only [Attempt.enabled, hq.enabled, Bool.true_and, Attempt.Cleared, href, ne_eq,
    not_false_eq_true, true_and]

theorem vetted_step {s t : State ι R} {act : Act ι R} (hv : ∀ e ∈ s.parked, Vetted mul e)
    (h : (replays mul ι).step s act = some t) : ∀ e ∈ t.parked, Vetted mul e := by
  cases act with
  | take i fingerprint loads =>
    obtain rfl := Option.some.inj h
    exact hv
  | refresh i again =>
    obtain ⟨held, -, rfl⟩ := Option.map_eq_some_iff.1 h
    exact hv
  | finish i a =>
    obtain ⟨held, -, rfl⟩ := Option.map_eq_some_iff.1 h
    intro e he
    rcases Analysis.finish_parked he with he | he
    · exact hv e he
    · exact he
  | release enabled r =>
    obtain rfl := Option.some.inj h
    intro e he
    obtain ⟨e, hmem, rfl⟩ := List.mem_map.1 he
    obtain ⟨href, hbasis⟩ := mark_eq r e
    simpa only [Vetted, href, hbasis] using hv e hmem

/-- What a step attempts is allowed exactly where the step is within the policy. -/
theorem allowed_step_iff {s t : State ι R} {act : Act ι R} (hv : ∀ e ∈ s.parked, Vetted mul e)
    (h : (replays mul ι).step s act = some t) : (∀ x ∈ t.attempts, x.Allowed mul) ↔
      (∀ x ∈ s.attempts, x.Allowed mul) ∧ Within mul s act := by
  cases act with
  | take i fingerprint loads =>
    obtain rfl := Option.some.inj h
    exact (and_iff_left trivial).symm
  | refresh i again =>
    obtain ⟨held, -, rfl⟩ := Option.map_eq_some_iff.1 h
    exact (and_iff_left trivial).symm
  | finish i a =>
    obtain ⟨held, hheld, rfl⟩ := Option.map_eq_some_iff.1 h
    simp only [Within, hheld, Option.mem_some_iff, forall_eq']
    unfold Analysis.finish
    cases a.vetted held with
    | none => simp [State.hold]
    | some x =>
      simp only [List.mem_append, or_imp, forall_and, Option.mem_some_iff, forall_eq',
        Analysis.attempts_allowed_iff]
  | release enabled r =>
    obtain rfl := Option.some.inj h
    simp only [List.mem_append, or_imp, forall_and, Within]
    rw [Release.attempts_allowed_iff hv]
    simp only [forall_and]

/-- **A run attempts only what the policy allows exactly where all its steps are within it.** -/
theorem allowed_iff_within {s t : State ι R} {acts : List (Act ι R)}
    (hs : (replays mul ι).start s) (h : (replays mul ι).run s acts = some t) :
    (∀ x ∈ t.attempts, x.Allowed mul) ↔ (replays mul ι).Meets (Within mul) s acts := by
  obtain ⟨-, hparked, hattempts⟩ := hs
  have hv : ∀ e ∈ s.parked, Vetted mul e := by simp [hparked]
  rw [Machine.keeps_iff_meets (I := fun s => ∀ e ∈ s.parked, Vetted mul e)
    (P := fun s => ∀ x ∈ s.attempts, x.Allowed mul) (fun s act t => vetted_step)
    (fun s act t => allowed_step_iff) hv h]
  simp [hattempts]

/-! ## A release -/

/-- A case whose finding is sure, and whose fix is in a build that is not running yet. -/
def awaitsBuild : Analysis ℤ where
  policy := {
    ceilings := ⟨some 1, some 1, some 1, some 1, some 1, some 1, some 1, some 1, some 1⟩
    replay := ⟨true, [.redriveAfterRecovery], some 1, false, true⟩
    park := ⟨true, 10, 0, none⟩
    reuseEnabled := true }
  caseId := "dlt-1".toList
  refId := some "ref-1".toList
  failureClass := .business
  corroboration := .corroborated
  corroborationReason := []
  couldNotLook := none
  registryHit := true
  gapped := false
  check := {
    verdict := .notDeployed
    reason := .behind "release".toList "1.0.0-release.2".toList "1.0.0-release.5".toList
    evidence := { requiredVersion := some "1.0.0-release.5".toList } }
  lane := .replied (.text "APPROVED".toList)
    (some { action := .redriveAfterRecovery, confidence := some (some 1) }) none
  withheld := false
  attaches := true
  store := ⟨true, true, true⟩
  now := 1

def releaseAt (running : List String) : Release ℤ where
  cfg := ⟨true, 10, 0, none⟩
  running := running.map fun s => .text s.toList
  now := 2
  dryRun := false
  queues _ := true
  marks _ := true

def parkThenRelease (running : List String) : List (Act ℕ ℤ) :=
  [.take 0 "f".toList true, .finish 0 awaitsBuild, .release true (releaseAt running)]

def times (a b : Num ℤ) : Num ℤ := a.bind fun x => b.map (x * ·)

def untouched : State ℕ ℤ := ⟨fun _ => {}, fun _ => none, [], []⟩

theorem untouched_start : (replays times ℕ).start untouched :=
  ⟨fun _ => rfl, rfl, rfl⟩

/-- Released once every pod runs the build or a later one. -/
theorem allowed_iff_within_released : ∃ t : State ℕ ℤ, t.attempts.length = 1 ∧
    ((∀ x ∈ t.attempts, x.Allowed times) ↔
      (replays times ℕ).Meets (Within times) untouched
        (parkThenRelease ["1.0.0-release.6", "1.0.0-release.5"])) := by
  obtain ⟨t, ht, hone⟩ := Option.map_eq_some_iff.1
    (by decide : ((replays times ℕ).run untouched
      (parkThenRelease ["1.0.0-release.6", "1.0.0-release.5"])).map (·.attempts.length) = some 1)
  exact ⟨t, hone, allowed_iff_within untouched_start ht⟩

/-- A pod that still runs build 2 does not hold back a packet that waits for build 5, where another
pod names no build. -/
theorem straddling_release : ∃ t : State ℕ ℤ, (replays times ℕ).Reachable t ∧
    ∃ x ∈ t.attempts, ¬ x.Allowed times := by
  obtain ⟨t, ht, hp⟩ := (replays times ℕ).exists_reachable_run untouched_start
    (parkThenRelease ["1.0.0", "1.0.0-release.2"])
    (fun t => t.attempts.any fun x => !decide x.Cleared) (by decide)
  obtain ⟨x, hx, hcleared⟩ := List.any_eq_true.1 hp
  have hnot : ¬ x.Cleared := by simpa using hcleared
  exact ⟨t, ht, x, hx, fun h => hnot h.cleared⟩

end ResidentCrm.Dlt
