import ResidentCrm.Logs.Fetch

/-!
# Reusing a log snapshot

`save`, `load` and `load_spans` of `log_pipeline/snapshot.py`, and the reuse path of
`KubernetesLogSource._fetch`. The metadata is read twice, once for the gaps and once for the spans,
and a read of it that fails is taken for metadata that says nothing.
-/

namespace ResidentCrm.Logs

universe u v

/-! ## What is saved -/

def GapType.value : GapType → Text
  | .logRotation => "LOG_ROTATION".toList
  | .podReplaced => "POD_REPLACED".toList
  | .truncated => "TRUNCATED".toList
  | .podVanished => "POD_VANISHED".toList
  | .levelParseDegraded => "LEVEL_PARSE_DEGRADED".toList
  | .sourceFallback => "SOURCE_FALLBACK".toList
  | .serviceUnavailable => "SERVICE_UNAVAILABLE".toList

/-- `GapType(value)`. -/
def GapType.ofValue (value : Text) : Option GapType :=
  [.logRotation, .podReplaced, .truncated, .podVanished, .levelParseDegraded, .sourceFallback,
    .serviceUnavailable].find? fun gapType : GapType => gapType.value = value

@[simp] theorem GapType.ofValue_value (gapType : GapType) : ofValue gapType.value = some gapType := by
  cases gapType <;> decide

structure SavedGap where
  type : Text
  detail : Text
  context : List (Text × Json)

structure SavedSpan where
  podName : Text
  container : Text
  oldestLine : Option Text
  startTime : Option Text
deriving DecidableEq, Repr

/-- The metadata of a snapshot, `coverage` where the spans were kept. -/
structure SnapshotMeta where
  gaps : List SavedGap
  coverage : Option (List SavedSpan)

def EvidenceGap.saved (gap : EvidenceGap) : SavedGap := ⟨gap.gapType.value, gap.detail, gap.context⟩

/-- A gap as it is loaded; one of no known type is left out. -/
def SavedGap.load (gap : SavedGap) : Option EvidenceGap :=
  (GapType.ofValue gap.type).map fun gapType => ⟨gapType, gap.detail, gap.context⟩

section

variable (clock : Clock)

/-- `PodSpan.to_dict`. -/
def PodSpan.toDict (span : PodSpan) : SavedSpan where
  podName := span.podName
  container := span.container
  oldestLine := span.oldestLine
  startTime := span.startTime.map clock.isoformat

/-- `PodSpan.from_dict`. -/
def SavedSpan.fromDict (span : SavedSpan) : Option PodSpan :=
  if span.podName = [] then none
  else some
    { podName := span.podName
      container := span.container
      oldestLine := span.oldestLine.filter (· ≠ [])
      startTime := clock.parseRecordTimestamp (span.startTime.getD []) }

/-- The metadata that `save` writes. -/
def snapshotMeta (gaps : List EvidenceGap) (spans : Option (List PodSpan)) : SnapshotMeta where
  gaps := gaps.map EvidenceGap.saved
  coverage := spans.map (·.map (PodSpan.toDict clock))

/-- The gaps of the metadata, none where it is not there. -/
def loadGaps (read : Option SnapshotMeta) : List EvidenceGap :=
  read.elim [] fun m => m.gaps.filterMap SavedGap.load

/-- `load_spans`. -/
def loadSpans (read : Option SnapshotMeta) : Option (List PodSpan) :=
  read.bind fun m => m.coverage.map (·.filterMap (SavedSpan.fromDict clock))

end

/-! ## Reuse -/

/-- `json.dumps` and `json.loads` of a record. -/
structure RecordCodec (ρ : Type v) where
  dumps : LogRecord ρ → Text
  loads : Text → Option (LogRecord ρ)

section

variable {σ : Type u} {ρ : Type v} (codec : RecordCodec ρ)

/-- The body that `save` writes. -/
def snapshotBody (records : List (LogRecord ρ)) : Text :=
  records.flatMap fun r => codec.dumps r ++ ['\n']

/-- The records of a body, if it can be read, and there are any. -/
def loadRecords (body : Option Text) : Option (List (LogRecord ρ)) :=
  (body.bind fun body =>
    ((Text.linesOf body).filter fun line => Text.strip line ≠ []).mapM codec.loads).filter (· ≠ [])

/-- `load`. -/
def loadSnapshot (body : Option Text) (read : Option SnapshotMeta) :
    Option (List (LogRecord ρ) × List EvidenceGap) :=
  (loadRecords codec body).map fun records => (records, loadGaps read)

variable (s : Settings σ ρ) (window : TimeWindow) (now : Moment)

/-- What a fetch saves, if it has records. -/
def savedBy (found : DiscoveryResult) (outcome : RetrievalOutcome ρ) :
    Option (Text × SnapshotMeta) :=
  if outcome.records = [] then none
  else some (snapshotBody codec outcome.records,
    snapshotMeta s.clock (collectedGaps s window now found outcome)
      (some (found.targets.map (spanOf outcome.oldestLineByTarget))))

/-- The reuse path of `_fetch`, by what each read of the metadata gives; `none` where the snapshot
does not load and the fetch is live. -/
def fetchReused (body : Option Text) (first second : Option SnapshotMeta) :
    Option (FetchResult ρ) :=
  (loadSnapshot codec body first).map fun (records, cached) =>
    if window.anchor.isSome then
      let (gaps, note) :=
        rejudgeForAnchor s.clock s.slack window now cached (loadSpans s.clock second)
      { records := records, gaps := dedupeGaps [] gaps, notes := note.toList }
    else { records := records, gaps := cached }

end

/-! ## What is saved is loaded -/

theorem loadGaps_snapshotMeta (clock : Clock) (gaps : List EvidenceGap)
    (spans : Option (List PodSpan)) : loadGaps (some (snapshotMeta clock gaps spans)) = gaps := by
  unfold loadGaps snapshotMeta
  dsimp only [Option.elim]
  rw [List.filterMap_map]
  have hload : SavedGap.load ∘ EvidenceGap.saved = some := by
    funext gap
    unfold SavedGap.load EvidenceGap.saved
    rw [Function.comp_apply, GapType.ofValue_value]
    rfl
  rw [hload, List.filterMap_some]

/-- A span as it comes back: an empty stamp reads as none. -/
def PodSpan.reread (span : PodSpan) : PodSpan :=
  { span with oldestLine := span.oldestLine.filter (· ≠ []) }

theorem fromDict_toDict (clock : Clock) {span : PodSpan} (h : span.podName ≠ []) :
    (span.toDict clock).fromDict clock = some span.reread := by
  obtain ⟨podName, container, oldestLine, startTime⟩ := span
  unfold SavedSpan.fromDict PodSpan.toDict PodSpan.reread
  rw [if_neg h]
  cases startTime with
  | none =>
    unfold Clock.parseRecordTimestamp
    rfl
  | some start =>
    rw [Option.map_some, Option.getD_some, Clock.parse_isoformat]

theorem loadSpans_snapshotMeta (clock : Clock) (gaps : List EvidenceGap) {spans : List PodSpan}
    (h : ∀ span ∈ spans, span.podName ≠ []) :
    loadSpans clock (some (snapshotMeta clock gaps (some spans))) =
      some (spans.map PodSpan.reread) := by
  unfold loadSpans snapshotMeta
  dsimp only [Option.bind, Option.map]
  rw [List.filterMap_map]
  congr 1
  induction spans with
  | nil => rfl
  | cons span spans ih =>
    rw [List.filterMap_cons, Function.comp_apply, fromDict_toDict clock (h span List.mem_cons_self),
      ih fun other hother => h other (List.mem_cons_of_mem _ hother)]
    rfl

section

variable {clock : Clock} {slack : ℤ} {window : TimeWindow} {now : Moment}

theorem oldest_reread (span : PodSpan) : span.reread.oldest clock = span.oldest clock := by
  obtain ⟨podName, container, oldestLine, startTime⟩ := span
  unfold PodSpan.oldest PodSpan.reread
  cases oldestLine with
  | none => rfl
  | some line =>
    by_cases h : line = []
    · rw [h]
      rfl
    · rw [Option.filter_some, if_pos (by simpa using h)]

theorem lateSpan_reread (span : PodSpan) :
    lateSpan clock slack window now span.reread = lateSpan clock slack window now span := by
  unfold lateSpan
  rw [oldest_reread]
  cases hold : span.oldest clock with
  | none => rfl
  | some oldest =>
    have hsame : span.reread = span := by
      obtain ⟨podName, container, oldestLine, startTime⟩ := span
      unfold PodSpan.oldest at hold
      cases oldestLine with
      | none => rfl
      | some line =>
        by_cases h : line = []
        · rw [h] at hold
          cases hold
        · unfold PodSpan.reread
          rw [Option.filter_some, if_pos (by simpa using h)]
    rw [hsame]

/-- **What comes back of the spans is judged as they are.** -/
theorem detectAnchoredGaps_reread (spans : List PodSpan) :
    detectAnchoredGaps clock slack window now (spans.map PodSpan.reread) =
      detectAnchoredGaps clock slack window now spans := by
  have hlate : (spans.map PodSpan.reread).filterMap (lateSpan clock slack window now) =
      spans.filterMap (lateSpan clock slack window now) := by
    rw [List.filterMap_map]
    exact List.filterMap_congr fun span _ => lateSpan_reread span
  unfold detectAnchoredGaps anchoredRotationGap
  rw [hlate, List.map_map]
  rfl

theorem coverageNote_reread (spans : List PodSpan) (gaps : List EvidenceGap) :
    coverageNote clock window (spans.map PodSpan.reread) gaps =
      coverageNote clock window spans gaps := by
  have holdest : (spans.map PodSpan.reread).filterMap (PodSpan.oldest clock) =
      spans.filterMap (PodSpan.oldest clock) := by
    rw [List.filterMap_map]
    exact List.filterMap_congr fun span _ => oldest_reread span
  unfold coverageNote
  rw [holdest]

end

end ResidentCrm.Logs
