import ResidentCrm.Logs.Coverage
import ResidentCrm.Logs.Snapshot

/-!
# A reused snapshot is judged as a live fetch

What a fetch saves holds facts about the fetch and judgements of its window. Reuse keeps the facts
and judges the spans again, so it comes to what a live fetch makes of the same outcome, as long as
both reads of the metadata bring it back.
-/

namespace ResidentCrm.Logs

universe u v

/-- The same window, anchored on a rejection. -/
def TimeWindow.anchoredOn (window : TimeWindow) (anchor : Moment) : TimeWindow :=
  { window with anchor := some anchor }

/-- Which reads of a snapshot bring back what was saved; another finds nothing, or fails. -/
structure Reads where
  body : Bool
  first : Bool
  second : Bool

/-! ## What is promised, and when -/

section

variable {σ : Type u} {ρ : Type v} (codec : RecordCodec ρ) (s : Settings σ ρ)
  (capture later : TimeWindow) (capturedAt now : Moment) (found : DiscoveryResult)
  (outcome : RetrievalOutcome ρ) (reads : Reads)

/-- The spans of an outcome. -/
def spansOf : List PodSpan := found.targets.map (spanOf outcome.oldestLineByTarget)

/-- What a fetch finds whatever its window is. -/
def fetchFacts : List EvidenceGap :=
  found.gaps ++ outcome.gaps ++ (detectParseDegradationGap s outcome.stats).toList

/-- What is reused of an outcome that a fetch under `capture` saved. -/
def reusedOf : Option (FetchResult ρ) :=
  let saved := savedBy codec s capture capturedAt found outcome
  fetchReused codec s later now (if reads.body then saved.map Prod.fst else none)
    (if reads.first then saved.map Prod.snd else none)
    (if reads.second then saved.map Prod.snd else none)

/-- Reuse gives the gaps and the coverage line of a live fetch with the same outcome. -/
def AsLive : Prop :=
  ∀ result ∈ reusedOf codec s capture later capturedAt now found outcome reads,
    result.gaps.Perm (resultOf s later now found outcome).gaps ∧
      result.notes = (resultOf s later now found outcome).notes

/-- The snapshot loads: there were records to save, and its body is read back. -/
def Loads : Prop :=
  reads.body = true ∧ outcome.records ≠ [] ∧
    loadRecords codec (some (snapshotBody codec outcome.records)) ≠ none

/-- The spans that the saved gaps record. -/
def recordedSpans : List PodSpan :=
  spansRecordedBy s.clock (collectedGaps s capture capturedAt found outcome)

/-- The spans that the saved gaps record say what the kept ones do: the same lines begin late, the
same pods are told of as replaced, and where neither is so, nor a fact leaves the line out, the
newest lines are of one second. -/
structure RecordedAlike : Prop where
  late : lateLines s.clock s.slack later now (recordedSpans s capture capturedAt found outcome) =
    lateLines s.clock s.slack later now (spansOf found outcome)
  replaced : toldOf s.clock later now (recordedSpans s capture capturedAt found outcome) =
    toldOf s.clock later now (spansOf found outcome)
  newest : lateLines s.clock s.slack later now (spansOf found outcome) = [] →
    replacedPods later now (spansOf found outcome) = [] →
    (fetchFacts s found outcome).any (·.gapType.spansGap) = false →
    (latest ((recordedSpans s capture capturedAt found outcome).filterMap
        (PodSpan.oldest s.clock))).map Moment.toSecond =
      (latest ((spansOf found outcome).filterMap (PodSpan.oldest s.clock))).map Moment.toSecond

/-- The metadata comes back twice; or what is lost of it says nothing. -/
def NothingLost : Prop :=
  match reads.first, reads.second with
  | true, true => True
  | true, false => RecordedAlike s capture later capturedAt now found outcome
  | false, true => fetchFacts s found outcome = []
  | false, false => fetchFacts s found outcome = [] ∧
      ∀ span ∈ spansOf found outcome, span.oldest s.clock = none ∧
        ∀ started ∈ span.startTime, started.instant ≤ (later.coverageStart now).instant

end

/-! ## Facts and judgements -/

section

variable {σ : Type u} {ρ : Type v} {s : Settings σ ρ} {window : TimeWindow} {now : Moment}
  {found : DiscoveryResult} {outcome : RetrievalOutcome ρ}

/-- Neither what discovery announces nor what the reads do is a judgement of the window. -/
theorem fetchFacts_unjudged {transport : Transport} {limits : Limits} {services : List Searched}
    {run : PoolRun (limits.discoverTargets services).targets} :
    ∀ gap ∈ fetchFacts s (limits.discoverTargets services) (readAll s transport window run),
      gap.gapType.judged = false := by
  intro gap hgap
  rcases List.mem_append.1 hgap with hgap | hgap
  · rcases List.mem_append.1 hgap with hgap | hgap
    · rcases discoverTargets_gaps limits services gap hgap with h | h <;> rw [h] <;> rfl
    · have hgaps : (readAll s transport window run).gaps =
          (RetrievalOutcome.start s run).gaps ++
            (run.returned.map (readOne s transport window)).flatMap PodFetchOutcome.gaps :=
        (foldl_add s _ _).2.1
      rw [hgaps] at hgap
      rcases List.mem_append.1 hgap with hgap | hgap
      · unfold RetrievalOutcome.start at hgap
        dsimp only at hgap
        split at hgap
        · rw [List.mem_singleton.1 hgap]
          rfl
        · cases hgap
      · obtain ⟨result, hresult, hgap⟩ := List.mem_flatMap.1 hgap
        obtain ⟨target, -, rfl⟩ := List.mem_map.1 hresult
        rw [(readOne_spec target).2.2] at hgap
        split at hgap <;> split at hgap
        · rw [List.mem_singleton.1 hgap]
          rfl
        · cases hgap
        · rw [List.mem_singleton.1 hgap]
          rfl
        · cases hgap
  · unfold detectParseDegradationGap at hgap
    split at hgap
    · cases hgap
    · obtain ⟨measured, -, rfl⟩ := Option.map_eq_some_iff.1 (Option.mem_toList.1 hgap)
      rfl

theorem judgedGaps_judged {targets : List PodTarget} :
    ∀ gap ∈ judgedGaps s window now targets outcome, gap.gapType.judged = true := by
  intro gap hgap
  unfold judgedGaps at hgap
  split at hgap
  · exact detectAnchoredGaps_judged gap hgap
  · rcases List.mem_append.1 hgap with hgap | hgap
    · unfold detectRotationGap at hgap
      split at hgap
      · cases hgap
      · dsimp only at hgap
        split at hgap
        · cases hgap
        · rw [List.mem_singleton.1 hgap]
          rfl
    · obtain ⟨started, -, rfl⟩ := List.mem_map.1 hgap
      rfl

theorem filter_eq_nil_of_unjudged {gaps : List EvidenceGap}
    (h : ∀ gap ∈ gaps, gap.gapType.judged = false) :
    gaps.filter (·.gapType.judged) = [] :=
  List.filter_eq_nil_iff.2 fun gap hgap hjudged => by
    rw [h gap hgap] at hjudged
    cases hjudged

theorem filter_eq_self_of_unjudged {gaps : List EvidenceGap}
    (h : ∀ gap ∈ gaps, gap.gapType.judged = false) : gaps.filter (!·.gapType.judged) = gaps :=
  List.filter_eq_self.2 fun gap hgap => by rw [h gap hgap]; rfl

theorem filter_not_eq_nil_of_judged {gaps : List EvidenceGap}
    (h : ∀ gap ∈ gaps, gap.gapType.judged = true) : gaps.filter (!·.gapType.judged) = [] :=
  List.filter_eq_nil_iff.2 fun gap hgap hno => by
    rw [h gap hgap] at hno
    cases hno

/-- Facts around judgements, collapsed together: each by itself. -/
theorem filter_dedupe_around (front judged back : List EvidenceGap)
    (hfront : ∀ gap ∈ front ++ back, gap.gapType.judged = false)
    (hjudged : ∀ gap ∈ judged, gap.gapType.judged = true) :
    (dedupeGaps [] (front ++ judged ++ back)).filter (·.gapType.judged) = dedupeGaps [] judged ∧
      (dedupeGaps [] (front ++ judged ++ back)).filter (!·.gapType.judged) =
        dedupeGaps [] (front ++ back) := by
  have hkeep : (dedupeGaps [] (front ++ judged ++ back)).filter (·.gapType.judged) =
      dedupeGaps [] ((front ++ judged ++ back).filter (·.gapType.judged)) :=
    filter_dedupeGaps GapType.judged (fun _ _ => Iff.rfl) _
  have hdrop : (dedupeGaps [] (front ++ judged ++ back)).filter (!·.gapType.judged) =
      dedupeGaps [] ((front ++ judged ++ back).filter (!·.gapType.judged)) :=
    filter_dedupeGaps (!GapType.judged ·) (fun _ _ => Iff.rfl) _
  have hfirst := fun gap hgap => hfront gap (List.mem_append_left back hgap)
  have hlast := fun gap hgap => hfront gap (List.mem_append_right front hgap)
  rw [hkeep, hdrop]
  simp only [List.filter_append, filter_eq_nil_of_unjudged hfirst,
    filter_eq_nil_of_unjudged hlast, filter_eq_self_of_unjudged hfirst,
    filter_eq_self_of_unjudged hlast, filter_not_eq_nil_of_judged hjudged,
    List.filter_eq_self.2 hjudged, List.nil_append, List.append_nil, and_self]

variable (window now) in
/-- What a fetch collects: the facts, and the judgements of its window. -/
theorem filter_collected (hfacts : ∀ gap ∈ fetchFacts s found outcome, gap.gapType.judged = false) :
    (collectedGaps s window now found outcome).filter (·.gapType.judged) =
        dedupeGaps [] (judgedGaps s window now found.targets outcome) ∧
      (collectedGaps s window now found outcome).filter (!·.gapType.judged) =
        dedupeGaps [] (fetchFacts s found outcome) :=
  filter_dedupe_around _ _ _ hfacts judgedGaps_judged

/-- Gaps are the same where their facts are and their judgements are. -/
theorem perm_iff_filter {gaps gaps' : List EvidenceGap} :
    gaps.Perm gaps' ↔
      (gaps.filter (·.gapType.judged)).Perm (gaps'.filter (·.gapType.judged)) ∧
      (gaps.filter (!·.gapType.judged)).Perm (gaps'.filter (!·.gapType.judged)) := by
  constructor
  · intro h
    exact ⟨h.filter _, h.filter _⟩
  · rintro ⟨hkeep, hdrop⟩
    exact (List.filter_append_perm _ gaps).symm.trans
      ((hkeep.append hdrop).trans (List.filter_append_perm _ gaps'))

/-! ## What reuse comes to -/

theorem toList_injective {α : Type*} : Function.Injective (Option.toList : Option α → List α) := by
  rintro (_ | a) (_ | b) h
  · rfl
  · cases h
  · cases h
  · exact congrArg some (List.singleton_inj.1 h)

theorem coverageNote_congr {spans : List PodSpan} {gaps gaps' : List EvidenceGap}
    (h : gaps.any (·.gapType.spansGap) = gaps'.any (·.gapType.spansGap)) :
    coverageNote s.clock window spans gaps = coverageNote s.clock window spans gaps' := by
  unfold coverageNote
  rw [h]

/-- Without gaps the line is said of an anchored window as soon as a span is dated. -/
theorem coverageNote_eq_none (clock : Clock) (anchor : Moment) (spans : List PodSpan) :
    coverageNote clock (window.anchoredOn anchor) spans [] = none ↔
      ∀ span ∈ spans, span.oldest clock = none := by
  have hlatest : ∀ moments : List Moment, latest moments = none ↔ moments = [] := by
    rintro (_ | ⟨m, moments⟩) <;> simp [latest]
  unfold coverageNote TimeWindow.anchoredOn
  dsimp only
  rw [if_neg (by decide), Option.map_eq_none_iff, hlatest, List.filterMap_eq_nil_iff]

theorem coverageNote_of_any {spans : List PodSpan} {gaps : List EvidenceGap}
    (h : gaps.any (·.gapType.spansGap) = true) : coverageNote s.clock window spans gaps = none := by
  unfold coverageNote
  cases window.anchor with
  | none => rfl
  | some anchor => exact if_pos h

/-- **A judgement of some facts and some spans is that of the live fetch where the facts are the
same, the judged gaps are, and the line is.** -/
theorem judged_asLive_iff (hanchor : window.anchor.isSome = true)
    (hfacts : ∀ gap ∈ fetchFacts s found outcome, gap.gapType.judged = false)
    {facts : List EvidenceGap} (hunjudged : ∀ gap ∈ facts, gap.gapType.judged = false)
    {spans : List PodSpan} :
    let judged := detectAnchoredGaps s.clock s.slack window now spans
    let live := collectedGaps s window now found outcome
    ((dedupeGaps [] (facts ++ judged)).Perm live ∧
      coverageNote s.clock window spans (facts ++ judged) =
        coverageNote s.clock window (spansOf found outcome) live) ↔
    (dedupeGaps [] facts).Perm (dedupeGaps [] (fetchFacts s found outcome)) ∧
      (dedupeGaps [] judged).Perm (dedupeGaps []
        (detectAnchoredGaps s.clock s.slack window now (spansOf found outcome))) ∧
      (detectAnchoredGaps s.clock s.slack window now (spansOf found outcome) = [] →
        coverageNote s.clock window spans (fetchFacts s found outcome) =
          coverageNote s.clock window (spansOf found outcome) (fetchFacts s found outcome)) := by
  intro judged live
  have hsplit := filter_dedupe_around facts judged [] (by rwa [List.append_nil])
    detectAnchoredGaps_judged
  rw [List.append_nil, List.append_nil] at hsplit
  have hlive := filter_collected window now hfacts
  have hjudged : judgedGaps s window now found.targets outcome =
      detectAnchoredGaps s.clock s.slack window now (spansOf found outcome) := if_pos hanchor
  rw [hjudged] at hlive
  have hparts : (dedupeGaps [] (facts ++ judged)).Perm live ↔
      (dedupeGaps [] judged).Perm (dedupeGaps []
        (detectAnchoredGaps s.clock s.slack window now (spansOf found outcome))) ∧
      (dedupeGaps [] facts).Perm (dedupeGaps [] (fetchFacts s found outcome)) := by
    rw [perm_iff_filter, hsplit.1, hsplit.2, hlive.1, hlive.2]
  have hline : (dedupeGaps [] (facts ++ judged)).Perm live →
      (coverageNote s.clock window spans (facts ++ judged) =
        coverageNote s.clock window (spansOf found outcome) live ↔
      (detectAnchoredGaps s.clock s.slack window now (spansOf found outcome) = [] →
        coverageNote s.clock window spans (fetchFacts s found outcome) =
          coverageNote s.clock window (spansOf found outcome) (fetchFacts s found outcome))) := by
    intro hperm
    have hsame : (facts ++ judged).any (·.gapType.spansGap) = live.any (·.gapType.spansGap) := by
      rw [← any_dedupeGaps]
      exact hperm.any_eq
    by_cases hnone : detectAnchoredGaps s.clock s.slack window now (spansOf found outcome) = []
    · have hfactsOnly : live.any (·.gapType.spansGap) =
          (fetchFacts s found outcome).any (·.gapType.spansGap) := by
        rw [hnone] at hlive
        have hwhole := List.filter_append_perm (·.gapType.judged) live
        rw [hlive.1, hlive.2] at hwhole
        rw [← hwhole.any_eq, ← any_dedupeGaps (fetchFacts s found outcome)]
        rfl
      rw [coverageNote_congr (hsame.trans hfactsOnly), coverageNote_congr hfactsOnly]
      exact ⟨fun h _ => h, fun h => h hnone⟩
    · have hany : live.any (·.gapType.spansGap) = true := by
        obtain ⟨gap, hgap⟩ := List.exists_mem_of_ne_nil _ (mt dedupeGaps_eq_nil.1 hnone)
        rw [← hlive.1] at hgap
        obtain ⟨hmem, hjudgedGap⟩ := List.mem_filter.1 hgap
        exact List.any_eq_true.2 ⟨gap, hmem, spansGap_of_judged hjudgedGap⟩
      rw [coverageNote_of_any hany, coverageNote_of_any (hsame.trans hany)]
      exact ⟨fun _ h => (hnone h).elim, fun _ => rfl⟩
  constructor
  · rintro ⟨hperm, hnote⟩
    obtain ⟨hj, hf⟩ := hparts.1 hperm
    exact ⟨hf, hj, (hline hperm).1 hnote⟩
  · rintro ⟨hf, hj, hnote⟩
    have hperm := hparts.2 ⟨hj, hf⟩
    exact ⟨hperm, (hline hperm).2 hnote⟩

end

section

variable {σ : Type u} {ρ : Type v} {codec : RecordCodec ρ} {s : Settings σ ρ}
  {capture later : TimeWindow} {capturedAt now : Moment} {found : DiscoveryResult}
  {outcome : RetrievalOutcome ρ} {reads : Reads}

theorem reusedOf_eq_none (h : ¬ Loads codec outcome reads) :
    reusedOf codec s capture later capturedAt now found outcome reads = none := by
  unfold reusedOf savedBy fetchReused loadSnapshot
  dsimp only
  rw [Option.map_map, Option.map_eq_none_iff]
  cases hbody : reads.body with
  | false => rfl
  | true =>
    by_cases hrecords : outcome.records = []
    · rw [if_pos rfl, if_pos hrecords]
      rfl
    · rw [if_pos rfl, if_neg hrecords]
      by_contra hload
      exact h ⟨hbody, hrecords, hload⟩

variable (s capture capturedAt now found) in
/-- A snapshot that loads is judged from what comes back of its metadata. -/
theorem reusedOf_eq (h : Loads codec outcome reads) (hanchor : later.anchor.isSome = true) :
    ∃ records, reusedOf codec s capture later capturedAt now found outcome reads =
      let saved := snapshotMeta s.clock (collectedGaps s capture capturedAt found outcome)
        (some (spansOf found outcome))
      let cached := loadGaps (if reads.first then some saved else none)
      let spans := (loadSpans s.clock (if reads.second then some saved else none)).getD
        (spansRecordedBy s.clock cached)
      let gaps := cached.filter (!·.gapType.judged) ++
        detectAnchoredGaps s.clock s.slack later now spans
      some
        { records := records
          gaps := dedupeGaps [] gaps
          notes := (coverageNote s.clock later spans gaps).toList } := by
  obtain ⟨hbody, hrecords, hload⟩ := h
  obtain ⟨records, hload⟩ := Option.ne_none_iff_exists'.1 hload
  refine ⟨records, ?_⟩
  unfold reusedOf savedBy fetchReused loadSnapshot
  dsimp only
  simp only [hbody, if_neg hrecords, if_true, Option.map_some, hload, if_pos hanchor]
  rfl

variable (capture later capturedAt now) in
/-- What the saved gaps record is judged as the kept spans are where it says what they do. -/
theorem recordedAlike_iff (hanchor : later.anchor.isSome = true) :
    let recorded := recordedSpans s capture capturedAt found outcome
    let kept := detectAnchoredGaps s.clock s.slack later now (spansOf found outcome)
    ((dedupeGaps [] (detectAnchoredGaps s.clock s.slack later now recorded)).Perm
        (dedupeGaps [] kept) ∧
      (kept = [] → coverageNote s.clock later recorded (fetchFacts s found outcome) =
        coverageNote s.clock later (spansOf found outcome) (fetchFacts s found outcome))) ↔
      RecordedAlike s capture later capturedAt now found outcome := by
  intro recorded kept
  rw [detectAnchoredGaps_perm_iff, detectAnchoredGaps_eq_nil_iff, coverageNote_eq_iff hanchor]
  constructor
  · rintro ⟨⟨hlate, htold⟩, hnewest⟩
    exact ⟨hlate, htold, fun hlate htold => hnewest ⟨hlate, htold⟩⟩
  · rintro ⟨hlate, htold, hnewest⟩
    exact ⟨⟨hlate, htold⟩, fun hnone => hnewest hnone.1 hnone.2⟩

/-- Where no line is dated only the replaced pods are judged. -/
theorem detectAnchoredGaps_undated {spans : List PodSpan}
    (h : ∀ span ∈ spans, span.oldest s.clock = none) :
    detectAnchoredGaps s.clock s.slack later now spans = [] ↔
      ∀ span ∈ spans, ∀ started ∈ span.startTime,
        started.instant ≤ (later.coverageStart now).instant := by
  have hlate : lateLines s.clock s.slack later now spans = [] := lateLines_eq_nil_iff.2
    fun span hspan => by rw [lateSpan, h span hspan]
  rw [detectAnchoredGaps_eq_nil_iff, and_iff_right hlate, replacedPods, startedAfter_eq_nil_iff,
    List.forall_mem_map]

/-- Reuse is as live where the facts that come back are those of the fetch, and the spans are judged
as those that were kept. -/
theorem asLive_iff_of_loads (h : Loads codec outcome reads) (hanchor : later.anchor.isSome = true)
    (hfacts : ∀ gap ∈ fetchFacts s found outcome, gap.gapType.judged = false) :
    let saved := snapshotMeta s.clock (collectedGaps s capture capturedAt found outcome)
      (some (spansOf found outcome))
    let cached := loadGaps (if reads.first then some saved else none)
    let spans := (loadSpans s.clock (if reads.second then some saved else none)).getD
      (spansRecordedBy s.clock cached)
    let kept := detectAnchoredGaps s.clock s.slack later now (spansOf found outcome)
    AsLive codec s capture later capturedAt now found outcome reads ↔
      (dedupeGaps [] (cached.filter (!·.gapType.judged))).Perm
        (dedupeGaps [] (fetchFacts s found outcome)) ∧
      (dedupeGaps [] (detectAnchoredGaps s.clock s.slack later now spans)).Perm
        (dedupeGaps [] kept) ∧
      (kept = [] → coverageNote s.clock later spans (fetchFacts s found outcome) =
        coverageNote s.clock later (spansOf found outcome) (fetchFacts s found outcome)) := by
  intro saved cached spans kept
  obtain ⟨records, hreused⟩ := reusedOf_eq s capture capturedAt now found h hanchor
  have hlive : resultOf s later now found outcome =
      { records := outcome.records
        gaps := collectedGaps s later now found outcome
        notes := (coverageNote s.clock later (spansOf found outcome)
          (collectedGaps s later now found outcome)).toList } := by
    unfold resultOf
    dsimp only
    rw [if_neg fun hnone => h.2.1 hnone.2.2]
    rfl
  have hunjudged : ∀ gap ∈ cached.filter (!·.gapType.judged), gap.gapType.judged = false :=
    fun gap hgap => by simpa using (List.mem_filter.1 hgap).2
  refine Iff.trans ?_ (judged_asLive_iff hanchor hfacts hunjudged)
  unfold AsLive
  rw [hreused, hlive]
  constructor
  · intro hall
    obtain ⟨hperm, hnotes⟩ := hall _ rfl
    exact ⟨hperm, toList_injective hnotes⟩
  · rintro ⟨hperm, hnote⟩ result hresult
    obtain rfl := Option.some.inj hresult
    exact ⟨hperm, congrArg Option.toList hnote⟩

end

section

variable {σ : Type u} {ρ : Type v} (codec : RecordCodec ρ) (s : Settings σ ρ)
  (transport : Transport) (capture later : TimeWindow) (capturedAt now anchor : Moment)
  (limits : Limits) (services : List Searched)
  (run : PoolRun (limits.discoverTargets services).targets) (reads : Reads)

/-- **A snapshot is judged as the live fetch of the same outcome, whatever window it was captured
under, exactly where it does not load or nothing of its metadata that matters is lost.** -/
theorem asLive_iff_nothingLost :
    let found := limits.discoverTargets services
    let outcome := readAll s transport capture run
    AsLive codec s capture (later.anchoredOn anchor) capturedAt now found outcome reads ↔
      (Loads codec outcome reads →
        NothingLost s capture (later.anchoredOn anchor) capturedAt now found outcome reads) := by
  intro found outcome
  have hfacts : ∀ gap ∈ fetchFacts s found outcome, gap.gapType.judged = false :=
    fetchFacts_unjudged
  have hnamed : ∀ span ∈ spansOf found outcome, span.podName ≠ [] := by
    intro span hspan
    obtain ⟨target, ht, rfl⟩ := List.mem_map.1 hspan
    exact discoverTargets_named ht
  by_cases hloads : Loads codec outcome reads
  · rw [forall_prop_of_true hloads]
    refine (asLive_iff_of_loads hloads rfl hfacts).trans ?_
    have hcached := (filter_collected capture capturedAt hfacts).2
    have hspans := loadSpans_snapshotMeta s.clock (collectedGaps s capture capturedAt found outcome)
      hnamed
    unfold NothingLost
    cases reads.first with
    | true =>
      rw [if_pos rfl, loadGaps_snapshotMeta, hcached]
      have hagain : (dedupeGaps [] (dedupeGaps [] (fetchFacts s found outcome))).Perm
          (dedupeGaps [] (fetchFacts s found outcome)) := by
        rw [dedupeGaps_of_nodup (dedupeGaps_nodup _ _) fun _ _ => List.not_mem_nil]
      cases reads.second with
      | true =>
        rw [if_pos rfl, hspans, Option.getD_some, detectAnchoredGaps_reread, coverageNote_reread]
        exact ⟨fun _ => trivial, fun _ => ⟨hagain, List.Perm.refl _, fun _ => rfl⟩⟩
      | false =>
        exact (and_iff_right hagain).trans (recordedAlike_iff capture _ capturedAt now rfl)
    | false =>
      have hnil : (dedupeGaps [] []).Perm (dedupeGaps [] (fetchFacts s found outcome)) ↔
          fetchFacts s found outcome = [] := by
        rw [← dedupeGaps_eq_nil]
        exact List.nil_perm
      cases reads.second with
      | true =>
        rw [if_pos rfl, hspans, Option.getD_some, detectAnchoredGaps_reread, coverageNote_reread]
        exact ⟨fun h => hnil.1 h.1, fun h => ⟨hnil.2 h, List.Perm.refl _, fun _ => rfl⟩⟩
      | false =>
        constructor
        · rintro ⟨hnone, hjudged, hline⟩
          have hnone := hnil.1 hnone
          have hkept := dedupeGaps_eq_nil.1 (List.nil_perm.1 hjudged)
          have hline := hline hkept
          rw [hnone] at hline
          have hundated := (coverageNote_eq_none _ _ _).1 (hline.symm.trans rfl)
          exact ⟨hnone, fun span hspan =>
            ⟨hundated span hspan, (detectAnchoredGaps_undated hundated).1 hkept span hspan⟩⟩
        · rintro ⟨hnone, hspans⟩
          have hundated := fun span hspan => (hspans span hspan).1
          have hkept : detectAnchoredGaps s.clock s.slack (later.anchoredOn anchor) now
              (spansOf found outcome) = [] :=
            (detectAnchoredGaps_undated hundated).2 fun span hspan => (hspans span hspan).2
          refine ⟨hnil.2 hnone, ?_, fun _ => ?_⟩
          · rw [hkept]
            exact List.Perm.refl _
          · rw [hnone, (coverageNote_eq_none _ _ _).2 hundated]
            rfl
  · refine ⟨fun _ h => (hloads h).elim, fun _ result hresult => ?_⟩
    rw [reusedOf_eq_none hloads] at hresult
    cases hresult

end

/-! ## A gap that is not read back -/

/-- One service whose pod is read whole, and one that cannot be searched. -/
def oneUnsearched : List Searched :=
  [⟨"bio".toList, .ok
    { podNamespace := "enu".toList
      pods := [runningPod "bio-1".toList (by decide)]
      distinct := by decide }⟩,
  ⟨"sms".toList, .error "namespace 'sms' not accessible".toList⟩]

/-- A record is its line. -/
def lineCodec : RecordCodec Text where
  dumps r := r.parsed
  loads line := some ⟨line, [], [], .current, true⟩

def tenOFive : Moment := ⟨1787652300000000, 0⟩

/-- What was fetched of them. -/
def fetchedOnce : RetrievalOutcome Text :=
  readAll plainSettings oneForbidden rejectedAtFive
    (PoolRun.inTime (plainLimits.discoverTargets oneUnsearched).targets)

/-- The first read of the metadata fails: the unsearched service is forgotten, and the logs are said
to be complete. -/
theorem lost_gap_unsaid :
    let found := plainLimits.discoverTargets oneUnsearched
    let later := rejectedAtFive.anchoredOn tenOFive
    let shown (r : FetchResult Text) :=
      (r.gaps.map EvidenceGap.gapType, r.notes.map CoverageNote.completeFrom)
    (reusedOf lineCodec plainSettings rejectedAtFive later tenOClock tenOFive found fetchedOnce
      ⟨true, false, true⟩).map shown = some ([], [tenOClock]) ∧
    shown (resultOf plainSettings later tenOFive found fetchedOnce) = ([.serviceUnavailable], []) ∧
    ¬ AsLive lineCodec plainSettings rejectedAtFive later tenOClock tenOFive found fetchedOnce
      ⟨true, false, true⟩ := by
  intro found later shown
  have hreused : (reusedOf lineCodec plainSettings rejectedAtFive later tenOClock tenOFive found
      fetchedOnce ⟨true, false, true⟩).map shown = some ([], [tenOClock]) := by decide
  have hlive : shown (resultOf plainSettings later tenOFive found fetchedOnce) =
      ([.serviceUnavailable], []) := by decide
  refine ⟨hreused, hlive, fun h => ?_⟩
  obtain ⟨result, hresult, hshown⟩ := Option.map_eq_some_iff.1 hreused
  have hgaps := ((h result hresult).1.map EvidenceGap.gapType).length_eq
  rw [(Prod.mk.inj hshown).1, (Prod.mk.inj hlive).1] at hgaps
  cases hgaps

end ResidentCrm.Logs
