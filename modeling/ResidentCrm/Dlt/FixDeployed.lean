import ResidentCrm.Dlt.CodeCheck

/-!
# When a fix is deployed

`FIX_DEPLOYED` ought to mean that every commit found on the call path is in every build that runs
and in none that ran when the packet failed (`SoundlyDeployed`). The loop over candidates passes
over a commit whose version it cannot read, and over one that is in no version yet once another
commit is in one; it examines the newest commits of each file only; and it compares one required
version with the lowest of the running and of the failing builds.

`NothingOverlooked` says what this comes to: where the verdict is `FIX_DEPLOYED`, it is sound
exactly if every commit's reads are answered and a version has been cut with it, none past the cap
is in a later version than those examined as far as what runs can tell, no build counter was lost in
a tie with a version without one, and no failing build lies between two commits' versions and no
commit's version between two failing builds (`fixDeployed_sound_iff`).
-/

namespace ResidentCrm.Dlt

section

variable (cfg : Config) (o : Oracle)

/-- Every commit reported as touching a mapped file. -/
def reported (probes : List FrameProbe) : List Commit := probes.flatMap FrameProbe.commitsFound

def changedRepo (probes : List FrameProbe) : Option Repo :=
  (changedProbes probes).head?.bind FrameProbe.repo?

/-- Every reported commit is in an actual version, at or behind all that runs and strictly ahead of
all that ran when the packet failed. -/
def SoundlyDeployed (probes : List FrameProbe) (baselines runnings : List Operand) : Prop :=
  ∀ repo ∈ changedRepo probes, ∀ c ∈ reported probes, ∃ text,
    (firstContainingVersion cfg o repo c).1 = .version text ∧
      (∀ x ∈ runnings, atLeast cfg.pattern x (.text text) = some true) ∧
      ∀ x ∈ baselines, isAhead cfg.pattern (.text text) x = some true

/-- The reads that resolve a commit are answered: its change set, the version file at the commit
where it touched that file, and else the later commits that did and the version file at the first
of them. -/
def ReadsAnswered (repo : Repo) (c : Commit) : Prop :=
  ∃ changed, changedPaths o repo c.id = some changed ∧
    if touchesVersionFile changed repo.versionFile then (versionAt cfg o repo c.id).isSome
    else ∃ bumps, commitsTouching o repo repo.versionFile c.timestampMs = some bumps ∧
      ∀ oldest ∈ bumps.getLast?, (versionAt cfg o repo oldest.id).isSome

/-- A version has been cut with a commit in it: the commit touched the version file, or a later one
did. -/
def IsCut (repo : Repo) (c : Commit) : Prop :=
  ∀ changed ∈ changedPaths o repo c.id, touchesVersionFile changed repo.versionFile = false →
    ∀ bumps ∈ commitsTouching o repo repo.versionFile c.timestampMs, bumps ≠ []

/-- The versions that first contain the commits examined. -/
def examinedVersions (probes : List FrameProbe) (repo : Repo) : List Text :=
  (examined cfg (changedProbes probes)).filterMap fun e =>
    (firstContainingVersion cfg o repo e.2).1.text?

/-- What the loop over candidates and the comparison that follows it cannot see. -/
structure NothingOverlooked (probes : List FrameProbe) (baselines runnings : List Operand)
    (repo : Repo) : Prop where
  answered : ∀ c ∈ reported probes, ReadsAnswered cfg o repo c
  cut : ∀ c ∈ reported probes, IsCut o repo c
  /-- What runs and is behind a commit past the cap is behind one that was examined. -/
  capped : ∀ c ∈ reported probes, (∀ e ∈ examined cfg (changedProbes probes), e.2 ≠ c) →
    ∀ text, (firstContainingVersion cfg o repo c).1 = .version text →
      ∀ x ∈ runnings, isAhead cfg.pattern (.text text) x = some true →
        ∃ text' ∈ examinedVersions cfg o probes repo,
          isAhead cfg.pattern (.text text') x = some true
  /-- Where a version without a build counter runs, or is a commit's, no running build of the same
  core has a lower counter than a commit's version. -/
  counters : ∀ text ∈ examinedVersions cfg o probes repo, ∀ V ∈ parse cfg.pattern text,
    (∃ u, u.rank.key = V.rank.key ∧ u.build = none ∧
      ((∃ x ∈ runnings, x.read cfg.pattern = some u) ∨
        ∃ text' ∈ examinedVersions cfg o probes repo, parse cfg.pattern text' = some u)) →
    ∀ x ∈ runnings, ∀ v ∈ x.read cfg.pattern, v.rank.key = V.rank.key →
      ∀ m ∈ v.build, ∀ n ∈ V.build, n ≤ m
  /-- A failing build that is behind a commit's version is behind every commit's. -/
  between : ∀ c ∈ reported probes, ∀ d ∈ reported probes, ∀ text text',
    (firstContainingVersion cfg o repo c).1 = .version text →
    (firstContainingVersion cfg o repo d).1 = .version text' →
      ∀ x ∈ baselines, isAhead cfg.pattern (.text text) x = some true →
        isAhead cfg.pattern (.text text') x = some true
  /-- A commit's version that is ahead of a failing build is ahead of every one. -/
  together : ∀ c ∈ reported probes, ∀ text, (firstContainingVersion cfg o repo c).1 = .version text →
    ∀ x ∈ baselines, ∀ y ∈ baselines, isAhead cfg.pattern (.text text) x = some true →
      isAhead cfg.pattern (.text text) y = some true

/-! ## Resolving a commit -/

variable {cfg o}

theorem firstContaining_version_iff {repo : Repo} {c : Commit} :
    (∃ text, (firstContainingVersion cfg o repo c).1 = .version text) ↔
      ReadsAnswered cfg o repo c ∧ IsCut o repo c := by
  unfold firstContainingVersion ReadsAnswered IsCut
  cases changedPaths o repo c.id with
  | none => simp
  | some changed =>
    cases htouch : touchesVersionFile changed repo.versionFile with
    | true =>
      cases hv : versionAt cfg o repo c.id with
      | none => simp [htouch]
      | some version => simp [htouch]
    | false =>
      cases hb : commitsTouching o repo repo.versionFile c.timestampMs with
      | none => simp [htouch]
      | some bumps =>
        cases hl : bumps.getLast? with
        | none => simp [htouch, List.getLast?_eq_none_iff.1 hl]
        | some oldest =>
          have hne : bumps ≠ [] := by
            rintro rfl
            cases hl
          cases hv : versionAt cfg o repo oldest.id with
          | none => simp [htouch, hl, hv]
          | some version => simp [htouch, hl, hv, hne]

theorem parse_of_versionAt {repo : Repo} {ref text : Text}
    (h : versionAt cfg o repo ref = some text) : ∃ V, parse cfg.pattern text = some V := by
  simp only [versionAt, Option.bind_eq_bind, Option.bind_eq_some_iff] at h
  obtain ⟨_, _, raw, _, h⟩ := h
  obtain ⟨hp, h⟩ := Option.ite_none_right_eq_some.1 h
  rw [Option.some.injEq] at h
  exact Option.isSome_iff_exists.1 (h ▸ hp)

theorem parse_of_firstContaining {repo : Repo} {c : Commit} {text : Text}
    (h : (firstContainingVersion cfg o repo c).1 = .version text) :
    ∃ V, parse cfg.pattern text = some V := by
  unfold firstContainingVersion at h
  split at h
  · cases h
  · split at h
    · split at h
      · cases h
      · next hv =>
        cases h
        exact parse_of_versionAt hv
    · split at h
      · cases h
      · split at h
        · cases h
        · split at h
          · cases h
          · next hv =>
            cases h
            exact parse_of_versionAt hv

/-! ## What the verdict rests on -/

/-- A verdict of `FIX_DEPLOYED` comes from a version required. -/
theorem fixDeployed_inv {failure : Failure} {failedAt : Option ℤ}
    {baselines runnings : List Operand}
    (h : (evaluate cfg o failure failedAt baselines runnings).verdict = .fixDeployed) :
    ∃ repo required b w, changedRepo (callPath cfg o failure failedAt) = some repo ∧
      requiredOf cfg o repo (changedProbes (callPath cfg o failure failedAt)) =
        .version required ∧
      lowest cfg.pattern baselines = some b ∧ lowest cfg.pattern runnings = some w ∧
      isAhead cfg.pattern (.text required) (.parsed b) = some true ∧
      atLeast cfg.pattern (.parsed w) (.text required) = some true := by
  rw [evaluate_verdict] at h
  unfold standing at h
  split at h
  swap
  · cases h
  unfold standingOf at h
  split at h
  · cases h
  split at h
  · cases h
  unfold changedRepo
  cases hp : changedProbes (callPath cfg o failure failedAt) with
  | nil =>
    rw [hp] at h
    cases h
  | cons first rest =>
    rw [hp] at h
    dsimp only at h
    split at h
    · next repo slug hrepo _ =>
      cases hr : requiredOf cfg o repo (first :: rest) with
      | version required =>
        rw [hr] at h
        obtain ⟨b, w, hb, hw, hahead, hat⟩ := conclude_fixDeployed cfg h
        exact ⟨repo, required, b, w, hrepo, hr, hb, hw, hahead, hat⟩
      | _ =>
        rw [hr] at h
        cases h
    · cases h

theorem mem_of_keepFirst {seen : List Text} {entries : List (Text × Commit)} {e : Text × Commit}
    (h : e ∈ keepFirst seen entries) : e ∈ entries := by
  induction entries generalizing seen with
  | nil => cases h
  | cons entry entries ih =>
    unfold keepFirst at h
    split at h
    · exact List.mem_cons_of_mem _ (ih h)
    · rcases List.mem_cons.1 h with rfl | h
      · exact List.mem_cons_self
      · exact List.mem_cons_of_mem _ (ih h)

theorem examined_reported {probes : List FrameProbe} {e : Text × Commit}
    (h : e ∈ examined cfg (changedProbes probes)) : e.2 ∈ reported probes := by
  obtain ⟨probe, hprobe, he⟩ := List.mem_flatMap.1 (mem_of_keepFirst h)
  obtain ⟨c, hc, rfl⟩ := List.mem_map.1 he
  have hmem := List.mem_of_mem_filter (List.mem_of_mem_filter hprobe)
  exact List.mem_flatMap.2 ⟨probe, hmem, List.mem_of_mem_take hc⟩

theorem mem_examinedVersions {probes : List FrameProbe} {repo : Repo} {text : Text} :
    text ∈ examinedVersions cfg o probes repo ↔ ∃ e ∈ examined cfg (changedProbes probes),
      (firstContainingVersion cfg o repo e.2).1 = .version text := by
  unfold examinedVersions
  rw [List.mem_filterMap]
  refine exists_congr fun e => and_congr_right fun _ => ?_
  cases (firstContainingVersion cfg o repo e.2).1 with
  | version text' => simp [Containing.text?]
  | _ => simp [Containing.text?]

/-- The version required is one that was examined, and none examined is ahead of it. -/
theorem requiredOf_spec {probes : List FrameProbe} {repo : Repo} {required : Text}
    (h : requiredOf cfg o repo (changedProbes probes) = .version required) :
    required ∈ examinedVersions cfg o probes repo ∧
      ∀ text ∈ examinedVersions cfg o probes repo, ¬ Ahead cfg text required := by
  obtain ⟨hmem, hnot⟩ := requiredBy_version cfg h
  constructor
  · obtain ⟨e, he, hversion⟩ := List.mem_map.1 hmem
    exact mem_examinedVersions.2 ⟨e, he, hversion⟩
  · intro text htext
    obtain ⟨e, he, hversion⟩ := mem_examinedVersions.1 htext
    exact hnot text (List.mem_map.2 ⟨e, he, hversion⟩)

theorem not_isAhead_of_atLeast {x y : Operand} (h : atLeast cfg.pattern x y = some true) :
    isAhead cfg.pattern y x ≠ some true := by
  intro hahead
  obtain ⟨v, V, hv, hV, hnot⟩ := atLeast_eq_some_true.1 h
  obtain ⟨V', v', hV', hv', hbehind⟩ := isAhead_eq_some_true.1 hahead
  rw [hv, Option.some.injEq] at hv'
  rw [hV, Option.some.injEq] at hV'
  exact hnot (hv' ▸ hV' ▸ hbehind)

/-- The lowest running build is at or beyond the highest candidate, so a running build is behind a
candidate by its counter only, past a version without one. -/
theorem counters_of_running_behind {V H w v : Version} (hV : ¬ H.Behind V) (hw : ¬ w.Behind H)
    (hv : ¬ v.Behind w) (h : v.Behind V) :
    v.rank.key = V.rank.key ∧ (∃ m ∈ v.build, ∃ n ∈ V.build, m < n) ∧
      (H.rank.key = V.rank.key ∧ H.build = none ∨ w.rank.key = V.rank.key ∧ w.build = none) := by
  have hVH := Rank.key_le_of_not_behind hV
  have hHw := Rank.key_le_of_not_behind hw
  have hwv := Rank.key_le_of_not_behind hv
  obtain ⟨hkey, m, hm, n, hn, hmn⟩ := Rank.counters_of_behind hv (hVH.trans hHw) h
  have hH : H.rank.key = V.rank.key := le_antisymm (hHw.trans (hwv.trans hkey.le)) hVH
  have hwkey : w.rank.key = V.rank.key := le_antisymm (hwv.trans hkey.le) (hVH.trans hHw)
  refine ⟨hkey, ⟨m, hm, n, hn, hmn⟩, ?_⟩
  by_contra hcounted
  push Not at hcounted
  obtain ⟨h', hh'⟩ := Option.ne_none_iff_exists'.1 (hcounted.1 hH)
  obtain ⟨k, hk⟩ := Option.ne_none_iff_exists'.1 (hcounted.2 hwkey)
  -- each is at or beyond the one before it, by counters that are all there
  have hnh : ¬ h' < n := fun hlt => hV (.inr ⟨hH, h', hh', n, hn, hlt⟩)
  have hhk : ¬ k < h' := fun hlt => hw (.inr ⟨hwkey.trans hH.symm, k, hk, h', hh', hlt⟩)
  have hkm : ¬ m < k := fun hlt => hv (.inr ⟨hkey.trans hwkey.symm, m, hm, k, hk, hlt⟩)
  omega

/-- Where a verdict is sound, nothing was overlooked. -/
theorem SoundlyDeployed.nothingOverlooked {probes : List FrameProbe}
    {baselines runnings : List Operand} (hs : SoundlyDeployed cfg o probes baselines runnings)
    {repo : Repo} (hrepo : repo ∈ changedRepo probes) :
    NothingOverlooked cfg o probes baselines runnings repo := by
  have hversion := fun c hc => firstContaining_version_iff.1
    ((hs repo hrepo c hc).imp fun _ h => h.1)
  have hsame : ∀ {c text}, c ∈ reported probes →
      (firstContainingVersion cfg o repo c).1 = .version text →
      (∀ x ∈ runnings, atLeast cfg.pattern x (.text text) = some true) ∧
        ∀ x ∈ baselines, isAhead cfg.pattern (.text text) x = some true := by
    intro c text hc ht
    obtain ⟨text', ht', hrun, hbase⟩ := hs repo hrepo c hc
    rw [ht, Containing.version.injEq] at ht'
    exact ht' ▸ ⟨hrun, hbase⟩
  exact
    { answered := fun c hc => (hversion c hc).1
      cut := fun c hc => (hversion c hc).2
      capped := fun c hc _ text ht x hx hahead =>
        absurd hahead (not_isAhead_of_atLeast ((hsame hc ht).1 x hx))
      counters := by
        intro text ht V hV _ x hx v hv hkey m hm n hn
        obtain ⟨e, he, ht⟩ := mem_examinedVersions.1 ht
        obtain ⟨a, b, ha, hb, hab⟩ :=
          atLeast_eq_some_true.1 ((hsame (examined_reported he) ht).1 x hx)
        rw [Option.mem_def] at hv hV
        rw [hv, Option.some.injEq] at ha
        rw [Operand.read, hV, Option.some.injEq] at hb
        subst ha hb
        by_contra hlt
        exact hab (.inr ⟨hkey, m, hm, n, hn, not_le.1 hlt⟩)
      between := fun c _ d hd text text' _ ht' x hx _ => (hsame hd ht').2 x hx
      together := fun c hc text ht x _ y hy _ => (hsame hc ht).2 y hy }

/-- **A verdict of `FIX_DEPLOYED` is sound exactly where nothing was overlooked.** -/
theorem fixDeployed_sound_iff {failure : Failure} {failedAt : Option ℤ}
    {baselines runnings : List Operand}
    (h : (evaluate cfg o failure failedAt baselines runnings).verdict = .fixDeployed) :
    SoundlyDeployed cfg o (callPath cfg o failure failedAt) baselines runnings ↔
      ∀ repo ∈ changedRepo (callPath cfg o failure failedAt),
        NothingOverlooked cfg o (callPath cfg o failure failedAt) baselines runnings repo := by
  obtain ⟨repo, required, b, w, hrepo, hreq, hb, hw, hahead, hat⟩ := fixDeployed_inv h
  generalize callPath cfg o failure failedAt = probes at *
  refine ⟨fun hs repo hrepo => hs.nothingOverlooked hrepo, fun hn repo' hrepo' c hc => ?_⟩
  rw [hrepo, Option.mem_def, Option.some.injEq] at hrepo'
  subst hrepo'
  have hn := hn repo hrepo
  obtain ⟨hrequired, hhighest⟩ := requiredOf_spec hreq
  -- what was examined runs everywhere
  have hexamined : ∀ text ∈ examinedVersions cfg o probes repo, ∀ x ∈ runnings,
      atLeast cfg.pattern x (.text text) = some true := by
    intro text htext x hx
    obtain ⟨e, he, ht⟩ := mem_examinedVersions.1 htext
    obtain ⟨V, hV⟩ := parse_of_firstContaining ht
    obtain ⟨v, hv, hvw⟩ := (lowest_spec hw).2 x hx
    obtain ⟨w', H, hw', hH, hwH⟩ := atLeast_eq_some_true.1 hat
    rw [Operand.read, Option.some.injEq] at hw'
    subst hw'
    have hHV : ¬ H.Behind V := fun hbehind =>
      hhighest text htext ((ahead_iff cfg).2 ⟨V, H, hV, hH, hbehind⟩)
    refine atLeast_eq_some_true.2 ⟨v, V, hv, hV, fun hbehind => ?_⟩
    obtain ⟨hkey, ⟨m, hm, n, hn', hmn⟩, hbare⟩ := counters_of_running_behind hHV hwH hvw hbehind
    have hle : n ≤ m := by
      refine hn.counters text htext V hV ?_ x hx v hv hkey m hm n hn'
      rcases hbare with ⟨hkey, hnone⟩ | ⟨hkey, hnone⟩
      · exact ⟨H, hkey, hnone, .inr ⟨required, hrequired, hH⟩⟩
      · exact ⟨w, hkey, hnone, .inl (lowest_spec hw).1⟩
    omega
  -- the lowest failing build is behind the version required, so every one is behind every version
  obtain ⟨x₀, hx₀, hread⟩ := (lowest_spec hb).1
  have hahead₀ : isAhead cfg.pattern (.text required) x₀ = some true := by
    obtain ⟨R, b', hR, hb', hbehind⟩ := isAhead_eq_some_true.1 hahead
    rw [Operand.read, Option.some.injEq] at hb'
    subst hb'
    exact isAhead_eq_some_true.2 ⟨R, b, hR, hread, hbehind⟩
  obtain ⟨e₀, he₀, ht₀⟩ := mem_examinedVersions.1 hrequired
  obtain ⟨text, ht⟩ := firstContaining_version_iff.2 ⟨hn.answered c hc, hn.cut c hc⟩
  refine ⟨text, ht, fun x hx => ?_, fun x hx => ?_⟩
  · by_cases hex : ∀ e ∈ examined cfg (changedProbes probes), e.2 ≠ c
    · obtain ⟨V, hV⟩ := parse_of_firstContaining ht
      obtain ⟨v, hv, -⟩ := (lowest_spec hw).2 x hx
      refine atLeast_eq_some_true.2 ⟨v, V, hv, hV, fun hbehind => ?_⟩
      obtain ⟨text', ht', hahead'⟩ := hn.capped c hc hex text ht x hx
        (isAhead_eq_some_true.2 ⟨V, v, hV, hv, hbehind⟩)
      exact not_isAhead_of_atLeast (hexamined text' ht' x hx) hahead'
    · push Not at hex
      obtain ⟨e, he, rfl⟩ := hex
      exact hexamined text (mem_examinedVersions.2 ⟨e, he, ht⟩) x hx
  · have hfirst := hn.between e₀.2 (examined_reported he₀) c hc required text ht₀ ht x₀ hx₀ hahead₀
    exact hn.together c hc text ht x₀ hx₀ x hx hfirst

end

/-! ## A fix that is in no version yet -/

def svc : Repo where
  project := "P".toList
  repo := "svc".toList
  branch := "release".toList
  versionFile := "gradle.properties".toList
  sourceRoots := ["src".toList]

def svcConfig : Config where
  enabled := true
  reachable := true
  cloud := false
  repoMap := [("a.".toList, some
    { project := svc.project, repo := svc.repo, versionFile := svc.versionFile,
      sourceRoots := svc.sourceRoots })]
  branchOverride := none
  frames := 5
  frames_pos := by decide
  maxCandidates := 10
  maxCandidates_pos := by decide
  pattern := none
  fromstring _ := none
  str _ := []

def failureAtB : Failure where
  failureClass := "A".toList
  locations := [{ target := "a.B.run".toList, file := some "B.java".toList }]

def pathOfB : Text := "src/a/B.java".toList

/-- The file was changed before the bump to 1.0.1 (`early`) and again after it (`late`). -/
def bumpBetween : Oracle where
  commits _ path :=
    if path = pathOfB then
      some [{ id := "late".toList, timestampMs := some 300 },
        { id := "early".toList, timestampMs := some 200 }]
    else if path = svc.versionFile then some [{ id := "bump".toList, timestampMs := some 250 }]
    else some []
  changes _ id := if id = "bump".toList then some [svc.versionFile] else some [pathOfB]
  file _ path ref :=
    if path = svc.versionFile then
      some (if ref = "early".toList then "version=1.0.0".toList else "version=1.0.1".toList)
    else if path = pathOfB then some [] else none
  pages _ := []

theorem fixDeployed_sound_iff_bumpBetween :
    SoundlyDeployed svcConfig bumpBetween (callPath svcConfig bumpBetween failureAtB (some 100))
        [.text "1.0.0".toList] [.text "1.0.1".toList] ↔
      ∀ repo ∈ changedRepo (callPath svcConfig bumpBetween failureAtB (some 100)),
        NothingOverlooked svcConfig bumpBetween
          (callPath svcConfig bumpBetween failureAtB (some 100)) [.text "1.0.0".toList]
          [.text "1.0.1".toList] repo :=
  fixDeployed_sound_iff (by decide)

/-- `FIX_DEPLOYED`, and the later of the two changes is in no version at all. -/
theorem fixDeployed_over_uncut_change :
    (evaluate svcConfig bumpBetween failureAtB (some 100) [.text "1.0.0".toList]
        [.text "1.0.1".toList]).verdict = .fixDeployed ∧
      ¬ SoundlyDeployed svcConfig bumpBetween
        (callPath svcConfig bumpBetween failureAtB (some 100)) [.text "1.0.0".toList]
        [.text "1.0.1".toList] := by
  refine ⟨by decide, ?_⟩
  intro h
  obtain ⟨text, ht, -⟩ := h svc (by decide) { id := "late".toList, timestampMs := some 300 }
    (by decide)
  have huncut : (firstContainingVersion svcConfig bumpBetween svc
      { id := "late".toList, timestampMs := some 300 }).1 = .uncut := by decide
  rw [huncut] at ht
  cases ht

end ResidentCrm.Dlt
