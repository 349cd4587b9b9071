import ResidentCrm.Logs.Types
import Mathlib.Data.List.Sort

/-!
# Judging what a fetch covers

`log_pipeline/sources/k8s/gaps.py`: rotation, replaced pods, the coverage line, and the judging of a
snapshot that is reused. A check reads the clock once; `now` is what it read.
-/

namespace ResidentCrm.Logs

/-- How far back the logs of one container reach. -/
structure PodSpan where
  podName : Text
  container : Text
  oldestLine : Option Text
  startTime : Option Moment
deriving DecidableEq, Repr

def PodSpan.label (span : PodSpan) : Text :=
  if span.container = [] then span.podName else span.podName ++ '/' :: span.container

/-- `_duration`, of a span in microseconds. -/
def durationText (span : ℤ) : Text :=
  let seconds := (span / 1000000).toNat
  if 60 ≤ seconds ∧ seconds % 60 = 0 then
    let minutes := seconds / 60
    Text.ofNat minutes ++ " minute".toList ++ if minutes = 1 then [] else ['s']
  else Text.ofNat seconds ++ " second".toList ++ if seconds = 1 then [] else ['s']

section

variable (clock : Clock) (slack : ℤ) (window : TimeWindow) (now : Moment)

/-- `_seconds`. -/
def secondsText (moment : Moment) (like : Option Moment := none) : Text :=
  clock.isoformat ((like.elim moment moment.astimezone).toSecond)

/-- `_before_rejection`. -/
def beforeRejection (like : Moment) : Text :=
  match window.anchor, window.coverFrom with
  | some anchor, some coverFrom =>
    durationText (anchor.instant - coverFrom.instant) ++
      " before this packet was rejected at ".toList ++ secondsText clock anchor like
  | _, _ => "the start of the span this trace must cover".toList

/-! ## The look-back -/

/-- `detect_rotation_gap`. -/
def detectRotationGap (oldestObserved : Option Text) (earliestPodStart : Option Moment) :
    Option EvidenceGap :=
  match oldestObserved.bind clock.parseRecordTimestamp with
  | none => none
  | some oldest =>
    let requestedStart := window.startTime now
    if oldest.instant ≤ requestedStart.instant + slack ∨
        earliestPodStart.any fun started => oldest.instant - slack ≤ started.instant then none
    else some
      { gapType := .logRotation
        detail := "requested from ".toList ++ clock.isoformat requestedStart ++
          ", oldest available line is ".toList ++ clock.isoformat oldest ++
          ". Logs before ".toList ++ clock.isoformat oldest ++
          " were rotated off the node and are unrecoverable.".toList
        context := [("requested_start".toList, .text (clock.isoformat requestedStart)),
          ("oldest_line".toList, .text (clock.isoformat oldest))] }

/-- The pods that started after a moment, each once. -/
def startedAfter (start : Moment) :
    (seen : List Text) → List (Text × Option Moment) → List (Text × Moment)
  | _, [] => []
  | seen, (podName, started) :: targets => match started with
    | none => startedAfter start seen targets
    | some started =>
      if started.instant ≤ start.instant ∨ podName ∈ seen then startedAfter start seen targets
      else (podName, started) :: startedAfter start (podName :: seen) targets

def podReplaced (podName : Text) (started : Moment) : EvidenceGap where
  gapType := .podReplaced
  detail :=
    let requestedStart := window.coverageStart now
    if window.anchor.isSome then
      "pod ".toList ++ podName ++ " started ".toList ++ secondsText clock started ++
        ", after ".toList ++ secondsText clock requestedStart started ++ ", ".toList ++
        beforeRejection clock window started ++
        ". A pod it replaced may have run the substage that rejected this packet; its logs ".toList ++
        "are gone.".toList
    else
      "pod ".toList ++ podName ++ " started ".toList ++ clock.isoformat started ++
        ", after the requested window began at ".toList ++ clock.isoformat requestedStart ++
        ". An earlier pod served part of this window; its logs are gone.".toList
  context := [("pod_name".toList, .text podName), ("started".toList, .text (clock.isoformat started))]

/-- `detect_pod_replaced_gaps`, of the names and starts of targets or of spans. -/
def detectPodReplacedGaps (targets : List (Text × Option Moment)) : List EvidenceGap :=
  (startedAfter (window.coverageStart now) [] targets).map fun (podName, started) =>
    podReplaced clock window now podName started

/-! ## An anchored window -/

/-- The oldest line of a span, where it can be dated. -/
def PodSpan.oldest (span : PodSpan) : Option Moment :=
  clock.parseRecordTimestamp (span.oldestLine.getD [])

/-- A span whose lines begin late, and the moment they do. -/
def lateSpan (span : PodSpan) : Option (Moment × PodSpan) :=
  match span.oldest clock with
  | none => none
  | some oldest =>
    if oldest.instant ≤ (window.coverageStart now).instant + slack ∨
        span.startTime.any fun started => oldest.instant - slack ≤ started.instant then none
    else some (oldest, span)

/-- `", ".join`. -/
def commaJoined : List Text → Text
  | [] => []
  | [t] => t
  | t :: l => t ++ ", ".toList ++ commaJoined l

/-- The pods named in an anchored rotation gap, the rest of them counted. -/
def namedPods (late : List (Moment × PodSpan)) : Text :=
  let named := commaJoined <| (late.take 5).map fun (oldest, span) =>
    span.label ++ " (from ".toList ++ secondsText clock oldest ++ ")".toList
  if 5 < late.length then
    named ++ " and ".toList ++ Text.ofNat (late.length - 5) ++ " more".toList
  else named

/-- `_anchored_rotation_gap`. -/
def anchoredRotationGap (spans : List PodSpan) : Option EvidenceGap :=
  let coverFrom := window.coverageStart now
  let late := (spans.filterMap (lateSpan clock slack window now)).insertionSort
    fun a b => b.1.instant ≤ a.1.instant
  match late with
  | [] => none
  | (like, _) :: _ => some
    { gapType := .logRotation
      detail := "the logs of ".toList ++ namedPods clock late ++ " begin after ".toList ++
        secondsText clock coverFrom like ++ ", ".toList ++ beforeRejection clock window like ++
        ". Lines from before then were rotated off the node and are unrecoverable, so the ".toList ++
        "substage that rejected this packet may be missing from those pods.".toList
      context := [("cover_from".toList, .text (clock.isoformat coverFrom)),
        ("rejected_at".toList, .optional (window.anchor.map clock.isoformat)),
        ("pods".toList, .array <| late.map fun (oldest, span) => .object
          [("pod_name".toList, .text span.podName), ("container".toList, .text span.container),
            ("oldest_line".toList, .text (clock.isoformat oldest))])] }

/-- `detect_anchored_gaps`. -/
def detectAnchoredGaps (spans : List PodSpan) : List EvidenceGap :=
  (anchoredRotationGap clock slack window now spans).toList ++
    detectPodReplacedGaps clock window now (spans.map fun span => (span.podName, span.startTime))

/-! ## The coverage line -/

/-- `_SPAN_GAPS`: the gaps that leave the span a trace must cover incomplete. -/
def GapType.spansGap : GapType → Bool
  | .logRotation | .podReplaced | .truncated | .podVanished | .serviceUnavailable => true
  | .levelParseDegraded | .sourceFallback => false

/-- From when the logs are said to be complete, and the rejection they are through, as both are
shown. -/
structure CoverageNote where
  completeFrom : Moment
  rejectedAt : Moment
deriving DecidableEq, Repr

def CoverageNote.text (note : CoverageNote) : Text :=
  "LOG COVERAGE: this packet's logs are complete from ".toList ++
    clock.isoformat note.completeFrom ++ " through its rejection at ".toList ++
    clock.isoformat note.rejectedAt ++ ". Lines it logged before ".toList ++
    clock.isoformat note.completeFrom ++
    " may be missing: the pods no longer hold them all.".toList

/-- `max`, the first of equals. -/
def latest : List Moment → Option Moment
  | [] => none
  | m :: l => some (l.foldl (fun a b => if a.instant < b.instant then b else a) m)

/-- `coverage_note`. -/
def coverageNote (spans : List PodSpan) (gaps : List EvidenceGap) : Option CoverageNote :=
  match window.anchor with
  | none => none
  | some anchor =>
    if gaps.any (·.gapType.spansGap) then none
    else (latest (spans.filterMap (PodSpan.oldest clock))).map fun completeFrom =>
      { completeFrom := completeFrom.toSecond
        rejectedAt := (anchor.astimezone completeFrom).toSecond }

/-! ## A snapshot -/

/-- `dedupe_gaps`. -/
def dedupeGaps : (seen : List (GapType × Text)) → List EvidenceGap → List EvidenceGap
  | _, [] => []
  | seen, gap :: gaps =>
    if (gap.gapType, gap.detail) ∈ seen then dedupeGaps seen gaps
    else gap :: dedupeGaps ((gap.gapType, gap.detail) :: seen) gaps

/-- `context.get(key)`, where it is a text that is not empty. -/
def EvidenceGap.recorded (gap : EvidenceGap) (key : Text) : Option Text :=
  match gap.context.lookup key with
  | some (.scalar (.string value)) => if value = [] then none else some value
  | _ => none

/-- `_spans_recorded_by`. -/
def spanRecordedBy (gap : EvidenceGap) : Option PodSpan :=
  match gap.gapType with
  | .logRotation => (gap.recorded "oldest_line".toList).map fun oldest =>
    { podName := "all pods".toList, container := [], oldestLine := oldest, startTime := none }
  | .podReplaced => (gap.recorded "pod_name".toList).map fun podName =>
    { podName := podName
      container := []
      oldestLine := none
      startTime := (gap.recorded "started".toList).bind clock.parseRecordTimestamp }
  | _ => none

def spansRecordedBy (cached : List EvidenceGap) : List PodSpan :=
  cached.filterMap (spanRecordedBy clock)

/-- A judgement of the window, as opposed to a fact about the fetch. -/
def GapType.judged : GapType → Bool
  | .logRotation | .podReplaced => true
  | _ => false

/-- `rejudge_for_anchor`. -/
def rejudgeForAnchor (cached : List EvidenceGap) (spans : Option (List PodSpan)) :
    List EvidenceGap × Option CoverageNote :=
  let spans := spans.getD (spansRecordedBy clock cached)
  let gaps := cached.filter (!·.gapType.judged) ++ detectAnchoredGaps clock slack window now spans
  (gaps, coverageNote clock window spans gaps)

end

/-! ## What the checks give -/

section

variable {clock : Clock} {slack : ℤ} {window : TimeWindow} {now : Moment}

/-- What `dedupe_gaps` tells gaps apart by. -/
def EvidenceGap.key (gap : EvidenceGap) : GapType × Text := (gap.gapType, gap.detail)

/-- **Collapsing duplicates keeps one of each.** -/
theorem mem_dedupeGaps_key (k : GapType × Text) (seen : List (GapType × Text))
    (gaps : List EvidenceGap) :
    k ∈ (dedupeGaps seen gaps).map EvidenceGap.key ↔ k ∈ gaps.map EvidenceGap.key ∧ k ∉ seen := by
  induction gaps generalizing seen with
  | nil => simp [dedupeGaps]
  | cons gap gaps ih =>
    have hkey : (gap.gapType, gap.detail) = gap.key := rfl
    unfold dedupeGaps
    rw [hkey, List.map_cons, List.mem_cons]
    split
    · next hseen =>
      rw [ih]
      refine and_congr_left fun hk => ⟨.inr, fun h => ?_⟩
      exact h.resolve_left fun hgap => hk (hgap ▸ hseen)
    · next hnew =>
      rw [List.map_cons, List.mem_cons, ih, List.mem_cons]
      constructor
      · rintro (rfl | ⟨hk, hnot⟩)
        · exact ⟨.inl rfl, hnew⟩
        · exact ⟨.inr hk, fun hseen => hnot (.inr hseen)⟩
      · rintro ⟨hk, hnot⟩
        by_cases heq : k = gap.key
        · exact .inl heq
        · exact .inr ⟨hk.resolve_left heq, fun h => h.elim heq hnot⟩

theorem dedupeGaps_nodup (seen : List (GapType × Text)) (gaps : List EvidenceGap) :
    ((dedupeGaps seen gaps).map EvidenceGap.key).Nodup := by
  induction gaps generalizing seen with
  | nil => exact List.nodup_nil
  | cons gap gaps ih =>
    unfold dedupeGaps
    split
    · exact ih seen
    · rw [List.map_cons, List.nodup_cons]
      refine ⟨fun h => ?_, ih _⟩
      exact ((mem_dedupeGaps_key _ _ _).1 h).2 List.mem_cons_self

/-- Gaps that differ are kept. -/
theorem dedupeGaps_of_nodup {seen : List (GapType × Text)} {gaps : List EvidenceGap}
    (h : (gaps.map EvidenceGap.key).Nodup) (hseen : ∀ gap ∈ gaps, gap.key ∉ seen) :
    dedupeGaps seen gaps = gaps := by
  induction gaps generalizing seen with
  | nil => rfl
  | cons gap gaps ih =>
    rw [List.map_cons, List.nodup_cons] at h
    have hkey : (gap.gapType, gap.detail) = gap.key := rfl
    unfold dedupeGaps
    rw [hkey, if_neg (hseen gap List.mem_cons_self)]
    refine congrArg _ (ih h.2 fun other hother hin => ?_)
    rcases List.mem_cons.1 hin with heq | hin
    · exact h.1 (heq ▸ List.mem_map_of_mem hother)
    · exact hseen other (List.mem_cons_of_mem _ hother) hin

theorem dedupeGaps_eq_nil {gaps : List EvidenceGap} : dedupeGaps [] gaps = [] ↔ gaps = [] := by
  constructor
  · intro h
    cases gaps with
    | nil => rfl
    | cons gap gaps => cases h
  · rintro rfl
    rfl

/-- **Gaps of some types are collapsed by themselves.** -/
theorem filter_dedupeGaps (p : GapType → Bool) {seen seen' : List (GapType × Text)}
    (h : ∀ k, p k.1 = true → (k ∈ seen ↔ k ∈ seen')) (gaps : List EvidenceGap) :
    (dedupeGaps seen gaps).filter (fun gap => p gap.gapType) =
      dedupeGaps seen' (gaps.filter fun gap => p gap.gapType) := by
  induction gaps generalizing seen seen' with
  | nil => rfl
  | cons gap gaps ih =>
    cases hp : p gap.gapType with
    | true =>
      have hkeep : ∀ l : List EvidenceGap, (gap :: l).filter (fun g => p g.gapType) =
          gap :: l.filter fun g => p g.gapType := fun l => List.filter_cons_of_pos hp
      rw [hkeep, dedupeGaps, dedupeGaps]
      have hiff := h (gap.gapType, gap.detail) hp
      by_cases hseen : (gap.gapType, gap.detail) ∈ seen
      · rw [if_pos hseen, if_pos (hiff.1 hseen), ih h]
      · rw [if_neg hseen, if_neg (hseen ∘ hiff.2), hkeep]
        refine congrArg _ (ih fun k hk => ?_)
        rw [List.mem_cons, List.mem_cons, h k hk]
    | false =>
      have hdrop : ∀ l : List EvidenceGap, (gap :: l).filter (fun g => p g.gapType) =
          l.filter fun g => p g.gapType := fun l =>
        List.filter_cons_of_neg (by rw [hp]; exact Bool.false_ne_true)
      rw [hdrop, dedupeGaps]
      split
      · exact ih h
      · rw [hdrop]
        refine ih fun k hk => ?_
        rw [List.mem_cons, ← h k hk]
        refine or_iff_right ?_
        rintro rfl
        rw [hp] at hk
        cases hk

/-- Whether some gap leaves the span incomplete is told by the keys. -/
theorem any_spansGap_iff {gaps : List EvidenceGap} :
    gaps.any (·.gapType.spansGap) = true ↔
      ∃ k ∈ gaps.map EvidenceGap.key, k.1.spansGap = true := by
  rw [List.any_eq_true]
  exact ⟨fun ⟨gap, hgap, h⟩ => ⟨gap.key, List.mem_map_of_mem hgap, h⟩, fun ⟨k, hk, h⟩ => by
    obtain ⟨gap, hgap, rfl⟩ := List.mem_map.1 hk
    exact ⟨gap, hgap, h⟩⟩

theorem any_dedupeGaps (gaps : List EvidenceGap) :
    (dedupeGaps [] gaps).any (·.gapType.spansGap) = gaps.any (·.gapType.spansGap) := by
  rw [Bool.eq_iff_iff, any_spansGap_iff, any_spansGap_iff]
  simp only [mem_dedupeGaps_key, List.not_mem_nil, not_false_eq_true, and_true]

/-- What is judged of an anchored window is rotation or a replaced pod. -/
theorem detectAnchoredGaps_judged {spans : List PodSpan} :
    ∀ gap ∈ detectAnchoredGaps clock slack window now spans, gap.gapType.judged = true := by
  intro gap hgap
  rcases List.mem_append.1 hgap with hgap | hgap
  · unfold anchoredRotationGap at hgap
    dsimp only at hgap
    split at hgap
    · cases hgap
    · rw [List.mem_singleton.1 hgap]
      rfl
  · obtain ⟨started, -, rfl⟩ := List.mem_map.1 hgap
    rfl

theorem spansGap_of_judged {gapType : GapType} (h : gapType.judged = true) :
    gapType.spansGap = true := by
  cases gapType <;> first | rfl | cases h

theorem latest_spec {moments : List Moment} {m : Moment} (h : latest moments = some m) :
    m ∈ moments ∧ ∀ other ∈ moments, other.instant ≤ m.instant := by
  have hfold : ∀ (l : List Moment) (start : Moment),
      let found := l.foldl (fun a b : Moment => if a.instant < b.instant then b else a) start
      found ∈ start :: l ∧ ∀ other ∈ start :: l, other.instant ≤ found.instant := by
    intro l
    induction l with
    | nil => exact fun start => ⟨List.mem_cons_self, fun other hother => by
        rw [List.mem_singleton.1 hother]
        exact Int.le_refl _⟩
    | cons b l ih =>
      intro start
      obtain ⟨hmem, hle⟩ := ih (if start.instant < b.instant then b else start)
      have hstep : start.instant ≤ (if start.instant < b.instant then b else start).instant ∧
          b.instant ≤ (if start.instant < b.instant then b else start).instant := by
        split_ifs <;> omega
      have hfirst := hle _ List.mem_cons_self
      constructor
      · rcases List.mem_cons.1 hmem with heq | hmem
        · rw [List.foldl_cons, heq]
          split_ifs
          · exact List.mem_cons_of_mem _ List.mem_cons_self
          · exact List.mem_cons_self
        · exact List.mem_cons_of_mem _ (List.mem_cons_of_mem _ hmem)
      · intro other hother
        rcases List.mem_cons.1 hother with rfl | hother
        · exact Int.le_trans hstep.1 hfirst
        · rcases List.mem_cons.1 hother with rfl | hother
          · exact Int.le_trans hstep.2 hfirst
          · exact hle other (List.mem_cons_of_mem _ hother)
  cases moments with
  | nil => cases h
  | cons first l =>
    obtain rfl := Option.some.inj h
    exact hfold l first

/-! ## Spans that are judged alike -/

/-- **Of each type and text the first gap is kept.** -/
theorem mem_dedupeGaps_iff {gap : EvidenceGap} (seen : List (GapType × Text))
    (gaps : List EvidenceGap) :
    gap ∈ dedupeGaps seen gaps ↔
      gap.key ∉ seen ∧ gaps.find? (fun g => decide (g.key = gap.key)) = some gap := by
  induction gaps generalizing seen with
  | nil => simp [dedupeGaps]
  | cons first gaps ih =>
    have hkey : (first.gapType, first.detail) = first.key := rfl
    rw [dedupeGaps, hkey, List.find?_cons]
    by_cases hfirst : first.key = gap.key
    · rw [decide_eq_true hfirst, hfirst]
      dsimp only
      split
      · next hseen => rw [ih]; exact iff_of_false (fun h => h.1 hseen) fun h => h.1 hseen
      · next hnew =>
        rw [List.mem_cons, ih]
        have hno : ¬(gap.key ∉ gap.key :: seen ∧
            gaps.find? (fun g => decide (g.key = gap.key)) = some gap) :=
          fun h => h.1 List.mem_cons_self
        rw [or_iff_left hno, and_iff_right hnew, Option.some.injEq, eq_comm]
    · rw [decide_eq_false hfirst]
      dsimp only
      have hne : gap ≠ first := fun h => hfirst (h ▸ rfl)
      split
      · exact ih seen
      · rw [List.mem_cons, or_iff_right hne, ih, List.mem_cons, not_or,
          and_iff_right (Ne.symm hfirst)]

/-- Collapsed lists are the same up to order where the first gap of each type and text is. -/
theorem dedupeGaps_perm_iff {gaps gaps' : List EvidenceGap} :
    (dedupeGaps [] gaps).Perm (dedupeGaps [] gaps') ↔
      ∀ k, gaps.find? (fun g => decide (g.key = k)) = gaps'.find? (fun g => decide (g.key = k)) := by
  have hnodup (l : List EvidenceGap) : (dedupeGaps [] l).Nodup :=
    (dedupeGaps_nodup [] l).of_map
  rw [List.perm_ext_iff_of_nodup (hnodup _) (hnodup _)]
  simp only [mem_dedupeGaps_iff, List.not_mem_nil, not_false_eq_true, true_and]
  constructor
  · intro h k
    refine Option.ext fun gap => ?_
    have hsame (l : List EvidenceGap) (hl : l.find? (fun g => decide (g.key = k)) = some gap) :
        gap.key = k := by
      simpa using List.find?_some hl
    constructor
    · intro hgap
      obtain rfl := hsame _ hgap
      exact (h gap).1 hgap
    · intro hgap
      obtain rfl := hsame _ hgap
      exact (h gap).2 hgap
  · intro h gap
    rw [h]

/-- A line that begins late, with its pod and container. -/
def lateLine (late : Moment × PodSpan) : Moment × Text × Text :=
  (late.1, late.2.podName, late.2.container)

variable (clock slack window now) in
/-- The lines that begin late, newest first. -/
def lateLines (spans : List PodSpan) : List (Moment × Text × Text) :=
  ((spans.filterMap (lateSpan clock slack window now)).insertionSort
    fun a b => b.1.instant ≤ a.1.instant).map lateLine

variable (window now) in
/-- The pods that replaced others, and when they started. -/
def replacedPods (spans : List PodSpan) : List (Text × Moment) :=
  startedAfter (window.coverageStart now) [] (spans.map fun span => (span.podName, span.startTime))

theorem isoformat_injective (clock : Clock) : Function.Injective clock.isoformat := fun m m' h =>
  Option.some.inj <| by rw [← clock.fromisoformat_isoformat m, h, clock.fromisoformat_isoformat]

theorem map_eq_of_map_eq {α β γ : Type*} {f : α → β} {g : α → γ}
    (hfg : ∀ x y, f x = f y → g x = g y) {l l' : List α} (h : l.map f = l'.map f) :
    l.map g = l'.map g := by
  induction l generalizing l' with
  | nil =>
    obtain rfl := List.map_eq_nil_iff.1 h.symm
    rfl
  | cons x l ih =>
    obtain ⟨y, l', rfl, hy, hl⟩ := List.map_eq_cons_iff.1 h.symm
    rw [List.map_cons, List.map_cons, hfg x y hy.symm, ih hl.symm]

theorem namedPods_congr {late late' : List (Moment × PodSpan)}
    (h : late.map lateLine = late'.map lateLine) :
    namedPods clock late = namedPods clock late' := by
  have hlength : late.length = late'.length := by
    simpa only [List.length_map] using congrArg List.length h
  have htake : (late.take 5).map lateLine = (late'.take 5).map lateLine := by
    rw [List.map_take, List.map_take, h]
  unfold namedPods
  rw [hlength, map_eq_of_map_eq ?_ htake]
  rintro ⟨m, span⟩ ⟨m', span'⟩ hline
  simp only [lateLine, Prod.mk.injEq] at hline
  simp only [PodSpan.label, hline]

/-- **Spans rotate alike** where the lines that begin late are the same. -/
theorem anchoredRotationGap_eq_iff {spans spans' : List PodSpan} :
    anchoredRotationGap clock slack window now spans =
        anchoredRotationGap clock slack window now spans' ↔
      lateLines clock slack window now spans = lateLines clock slack window now spans' := by
  unfold anchoredRotationGap lateLines
  dsimp only
  generalize (spans.filterMap (lateSpan clock slack window now)).insertionSort
    (fun a b => b.1.instant ≤ a.1.instant) = late
  generalize (spans'.filterMap (lateSpan clock slack window now)).insertionSort
    (fun a b => b.1.instant ≤ a.1.instant) = late'
  cases late with
  | nil =>
    cases late' with
    | nil => exact iff_of_true rfl rfl
    | cons => exact iff_of_false (fun h => by cases h) fun h => by cases h
  | cons line late =>
    cases late' with
    | nil => exact iff_of_false (fun h => by cases h) fun h => by cases h
    | cons line' late' =>
      obtain ⟨m, span⟩ := line
      obtain ⟨m', span'⟩ := line'
      constructor
      · intro h
        have hcontext := congrArg EvidenceGap.context (Option.some.inj h)
        simp only [List.cons.injEq, Prod.mk.injEq, true_and, and_true, Json.array.injEq]
          at hcontext
        refine map_eq_of_map_eq ?_ hcontext
        rintro ⟨m, span⟩ ⟨m', span'⟩ hline
        simp only [Json.text, Json.object.injEq, List.cons.injEq, Prod.mk.injEq, true_and,
          Json.scalar.injEq, Scalar.string.injEq, and_true] at hline
        obtain ⟨hpod, hcontainer, hmoment⟩ := hline
        rw [lateLine, lateLine, hpod, hcontainer, isoformat_injective clock hmoment]
      · intro h
        obtain rfl : m = m' := congrArg Prod.fst (List.cons.inj h).1
        dsimp only
        rw [namedPods_congr h, map_eq_of_map_eq ?_ h]
        rintro ⟨m, span⟩ ⟨m', span'⟩ hline
        simp only [lateLine, Prod.mk.injEq] at hline
        simp only [hline]

theorem podReplaced_injective {p q : Text × Moment}
    (h : podReplaced clock window now p.1 p.2 = podReplaced clock window now q.1 q.2) : p = q := by
  have hcontext := congrArg EvidenceGap.context h
  simp only [podReplaced, Json.text, List.cons.injEq, Prod.mk.injEq, true_and, and_true,
    Json.scalar.injEq, Scalar.string.injEq] at hcontext
  exact Prod.ext hcontext.1 (isoformat_injective clock hcontext.2)

variable (clock window now) in
/-- The first replaced pod that a text tells of. -/
def toldOf (spans : List PodSpan) (text : Text) : Option (Text × Moment) :=
  (replacedPods window now spans).find? fun pod =>
    decide ((podReplaced clock window now pod.1 pod.2).detail = text)

theorem gapType_of_rotation {spans : List PodSpan} {gap : EvidenceGap}
    (h : anchoredRotationGap clock slack window now spans = some gap) :
    gap.gapType = .logRotation := by
  unfold anchoredRotationGap at h
  dsimp only at h
  split at h
  · cases h
  · rw [← Option.some.inj h]

/-- **Spans are judged alike** where the same lines begin late and the same replaced pods are told
of. -/
theorem detectAnchoredGaps_perm_iff {spans spans' : List PodSpan} :
    (dedupeGaps [] (detectAnchoredGaps clock slack window now spans)).Perm
        (dedupeGaps [] (detectAnchoredGaps clock slack window now spans')) ↔
      lateLines clock slack window now spans = lateLines clock slack window now spans' ∧
        toldOf clock window now spans = toldOf clock window now spans' := by
  -- the first gap of a type and a text: a rotation gap, or the gap of a replaced pod
  have hfind (spans : List PodSpan) (k : GapType × Text) :
      (detectAnchoredGaps clock slack window now spans).find? (fun g => decide (g.key = k)) =
        ((anchoredRotationGap clock slack window now spans).filter fun g => decide (g.key = k)).or
          (if k.1 = .podReplaced then
            (toldOf clock window now spans k.2).map fun pod =>
              podReplaced clock window now pod.1 pod.2
          else none) := by
    unfold detectAnchoredGaps detectPodReplacedGaps
    rw [List.find?_append]
    refine congrArg₂ Option.or ?_ ?_
    · cases anchoredRotationGap clock slack window now spans with
      | none => rfl
      | some gap => by_cases hkey : gap.key = k <;> simp [hkey, Option.filter]
    · have hkey (pod : Text × Moment) :
          (podReplaced clock window now pod.1 pod.2).key = k ↔
            k.1 = .podReplaced ∧ (podReplaced clock window now pod.1 pod.2).detail = k.2 := by
        rw [Prod.ext_iff, eq_comm]
        rfl
      rw [List.find?_map]
      split
      · next htype =>
        refine congrArg (Option.map _) (congrArg (List.find? · _) (funext fun pod => ?_))
        exact decide_eq_decide.2 ((hkey pod).trans (and_iff_right htype))
      · next htype =>
        rw [Option.map_eq_none_iff, List.find?_eq_none]
        intro pod _ hpod
        exact htype ((hkey pod).1 (of_decide_eq_true hpod)).1
  constructor
  · intro h
    rw [dedupeGaps_perm_iff] at h
    constructor
    · rw [← anchoredRotationGap_eq_iff]
      refine Option.ext fun gap => ?_
      have hsame (hgap : gap.gapType = .logRotation) :
          (anchoredRotationGap clock slack window now spans).filter
              (fun g => decide (g.key = gap.key)) =
            (anchoredRotationGap clock slack window now spans').filter
              fun g => decide (g.key = gap.key) := by
        have hk := h gap.key
        have hno : gap.key.1 ≠ .podReplaced := by
          rw [show gap.key.1 = .logRotation from hgap]
          decide
        rwa [hfind, hfind, if_neg hno, if_neg hno, Option.or_none, Option.or_none] at hk
      have hself : (some gap).filter (fun g => decide (g.key = gap.key)) = some gap := by
        simp [Option.filter]
      constructor
      · intro hgap
        have hk := hsame (gapType_of_rotation hgap)
        rw [hgap, hself] at hk
        exact (Option.filter_eq_some_iff.1 hk.symm).1
      · intro hgap
        have hk := hsame (gapType_of_rotation hgap)
        rw [hgap, hself] at hk
        exact (Option.filter_eq_some_iff.1 hk).1
    · funext text
      have hno (spans : List PodSpan) : (anchoredRotationGap clock slack window now spans).filter
          (fun g => decide (g.key = (.podReplaced, text))) = none := by
        rw [Option.filter_eq_none_iff]
        intro gap hgap hkey
        have htype := congrArg Prod.fst (of_decide_eq_true hkey)
        rw [EvidenceGap.key, gapType_of_rotation hgap] at htype
        cases htype
      have hk := h (.podReplaced, text)
      rw [hfind, hfind, hno, hno, Option.none_or, Option.none_or, if_pos rfl, if_pos rfl] at hk
      exact Option.map_injective (fun _ _ => podReplaced_injective) hk
  · rintro ⟨hlate, htold⟩
    rw [dedupeGaps_perm_iff]
    intro k
    rw [hfind, hfind, anchoredRotationGap_eq_iff.2 hlate, htold]

/-- No pod replaced another where none started late. -/
theorem startedAfter_eq_nil_iff {start : Moment} (targets : List (Text × Option Moment)) :
    startedAfter start [] targets = [] ↔
      ∀ target ∈ targets, ∀ started ∈ target.2, started.instant ≤ start.instant := by
  induction targets with
  | nil => simp [startedAfter]
  | cons target targets ih =>
    obtain ⟨podName, _ | started⟩ := target
    · simp [startedAfter, ih]
    · rw [startedAfter, List.forall_mem_cons]
      by_cases hle : started.instant ≤ start.instant
      · rw [if_pos (.inl hle), ih]
        simp [hle]
      · simp [hle]

theorem lateLines_eq_nil_iff {spans : List PodSpan} :
    lateLines clock slack window now spans = [] ↔
      ∀ span ∈ spans, lateSpan clock slack window now span = none := by
  rw [lateLines, List.map_eq_nil_iff, ← List.length_eq_zero_iff, List.length_insertionSort,
    List.length_eq_zero_iff, List.filterMap_eq_nil_iff]

theorem detectAnchoredGaps_eq_nil_iff {spans : List PodSpan} :
    detectAnchoredGaps clock slack window now spans = [] ↔
      lateLines clock slack window now spans = [] ∧ replacedPods window now spans = [] := by
  have hempty : anchoredRotationGap clock slack window now [] = none := rfl
  have hlate : lateLines clock slack window now [] = [] := rfl
  rw [detectAnchoredGaps, List.append_eq_nil_iff, Option.toList_eq_nil_iff, ← hempty,
    anchoredRotationGap_eq_iff, hlate, detectPodReplacedGaps, List.map_eq_nil_iff]
  rfl

/-- **The coverage line is the same** where a gap leaves it out, or the newest dated lines are of
one second. -/
theorem coverageNote_eq_iff (hanchor : window.anchor.isSome = true) {spans spans' : List PodSpan}
    (gaps : List EvidenceGap) :
    coverageNote clock window spans gaps = coverageNote clock window spans' gaps ↔
      (gaps.any (·.gapType.spansGap) = false →
        (latest (spans.filterMap (PodSpan.oldest clock))).map Moment.toSecond =
          (latest (spans'.filterMap (PodSpan.oldest clock))).map Moment.toSecond) := by
  obtain ⟨anchor, hanchor⟩ := Option.isSome_iff_exists.1 hanchor
  have hnote (m : Moment) : CoverageNote.mk m.toSecond (anchor.astimezone m).toSecond =
      CoverageNote.mk m.toSecond (anchor.astimezone m.toSecond).toSecond := rfl
  have hinj : Function.Injective fun m : Moment =>
      CoverageNote.mk m (anchor.astimezone m).toSecond := fun m m' h =>
    congrArg CoverageNote.completeFrom h
  unfold coverageNote
  rw [hanchor]
  dsimp only
  split
  · next hany => exact iff_of_true rfl fun hno => by rw [hany] at hno; cases hno
  · next hany =>
    rw [forall_prop_of_true (Bool.eq_false_iff.2 hany)]
    constructor
    · intro h
      have h' := congrArg (Option.map CoverageNote.completeFrom) h
      rwa [Option.map_map, Option.map_map] at h'
    · intro h
      have h' := congrArg (Option.map fun m : Moment =>
        CoverageNote.mk m (anchor.astimezone m).toSecond) h
      rwa [Option.map_map, Option.map_map] at h'

end

end ResidentCrm.Logs
