import ResidentCrm.Lib.Split
import ResidentCrm.Logs.Fetch
import Mathlib.Logic.Encodable.Basic

/-!
# Whether the coverage line is honest

What a read comes to, what each layer announces of it, and when the coverage line says what the
reads bear out.
-/

namespace ResidentCrm.Logs

universe u v

/-! ## What a read comes to -/

/-- A line of the stream is where the cap was hit. -/
def Stream.flagged (stream : Stream) : Bool := stream.items.any Item.hitCap

/-- What a stream raises, if no flagged line ends it before. -/
def Stream.raises (stream : Stream) : Option Failure :=
  if stream.flagged then none else stream.failure

section

variable {σ : Type u} {ρ : Type v} {parser : Parser ρ} {selector : Selector σ}
  {target : PodTarget} {inst : Instance}

theorem emit_truncated (emitted : List (Text × Bool)) (read : InstanceRead ρ) :
    (emitted.foldl (InstanceRead.emit parser target inst) read).truncated = read.truncated := by
  induction emitted generalizing read with
  | nil => rfl
  | cons line emitted ih => exact ih _

theorem step_truncated (read : InstanceRead ρ) (s : σ) (item : Item) :
    (read.step parser selector target inst s item).1.truncated = read.truncated := by
  unfold InstanceRead.step
  dsimp only
  split
  · rfl
  · exact emit_truncated _ _

/-- What a read comes to, by its stream. -/
def Comes (stream : Stream) : Except Failure (InstanceRead ρ) → Prop
  | .error failure => stream.raises = some failure
  | .ok read => stream.raises = none ∧ read.truncated = stream.flagged

theorem loop_comes (failure : Option Failure) (items : List Item) (read : InstanceRead ρ) (s : σ)
    (h : read.truncated = false) :
    Comes ⟨items, failure⟩ (InstanceRead.loop parser selector target inst failure read s items) := by
  induction items generalizing read s with
  | nil =>
    cases failure with
    | none => exact ⟨rfl, h⟩
    | some f => rfl
  | cons item items ih =>
    have htruncated : (read.step parser selector target inst s item).1.truncated = false :=
      (step_truncated read s item).trans h
    have hrest := ih _ (read.step parser selector target inst s item).2 htruncated
    unfold InstanceRead.loop
    dsimp only
    cases hcap : item.hitCap with
    | true =>
      have hflagged : (Stream.mk (item :: items) failure).flagged = true := by
        unfold Stream.flagged
        rw [List.any_cons, hcap, Bool.true_or]
      rw [if_pos rfl]
      exact ⟨if_pos hflagged, hflagged.symm⟩
    | false =>
      have hflagged : (Stream.mk (item :: items) failure).flagged =
          (Stream.mk items failure).flagged := by
        unfold Stream.flagged
        rw [List.any_cons, hcap, Bool.false_or]
      have hraises : (Stream.mk (item :: items) failure).raises =
          (Stream.mk items failure).raises := by
        unfold Stream.raises
        rw [hflagged]
      rw [if_neg Bool.false_ne_true]
      unfold Comes at hrest ⊢
      rw [hraises, hflagged]
      exact hrest

/-- **A read raises what its stream does, and is truncated where a line of it is flagged.** -/
theorem readInstance_comes (stream : Stream) :
    Comes stream (readInstance parser selector target inst stream) :=
  loop_comes stream.failure stream.items {} selector.fresh rfl

end

/-! ## What a target's reads announce -/

section

variable {σ : Type u} {ρ : Type v} (s : Settings σ ρ) (transport : Transport) (window : TimeWindow)

/-- The stream of one read. -/
def streamOf (target : PodTarget) (wanted : Instance) : Stream :=
  transport.openStream s.maxBytes window.seconds target wanted

/-- What the read of the current instance raises. -/
def fails (target : PodTarget) : Option Failure := (streamOf s transport window target .current).raises

/-- Whether a line of either instance is flagged. -/
def hitsCap (target : PodTarget) : Bool :=
  (target.restarted && (streamOf s transport window target .previous).flagged) ||
    (streamOf s transport window target .current).flagged

variable {s transport window}

theorem raises_of_flagged {stream : Stream} (h : stream.flagged = true) : stream.raises = none :=
  if_pos h

variable (s transport window) in
/-- The previous instance announces nothing; it may be truncated. -/
theorem readPrevious_spec (target : PodTarget) :
    let outcome := readPrevious s.parser s.instant s.selector
      (streamOf s transport window target) target
    outcome.target = target ∧ outcome.gaps = [] ∧ outcome.ok = true ∧ outcome.truncated =
      (target.restarted && (streamOf s transport window target .previous).flagged) := by
  intro outcome
  unfold outcome readPrevious
  cases target.restarted with
  | false => exact ⟨rfl, rfl, rfl, rfl⟩
  | true =>
    rw [if_pos rfl]
    have hcomes : Comes (streamOf s transport window target .previous) (readInstance s.parser
        s.selector target .previous (streamOf s transport window target .previous)) :=
      readInstance_comes _
    cases hread : readInstance s.parser s.selector target .previous
        (streamOf s transport window target .previous) with
    | error f =>
      rw [hread] at hcomes
      refine ⟨rfl, rfl, rfl, ?_⟩
      cases hflagged : (streamOf s transport window target .previous).flagged with
      | false => rfl
      | true =>
        have hnone := raises_of_flagged hflagged
        rw [show _ = some f from hcomes] at hnone
        cases hnone
    | ok read =>
      rw [hread] at hcomes
      exact ⟨rfl, rfl, rfl, hcomes.2⟩

/-- **What a target announces: that it vanished, or that a cap was hit; no other failure.** -/
theorem readOne_spec (target : PodTarget) :
    (readOne s transport window target).target = target ∧
    (readOne s transport window target).ok = (fails s transport window target).isNone ∧
    (readOne s transport window target).gaps = match fails s transport window target with
      | some failure => if failure.status = some 404 then [podVanished target] else []
      | none => if hitsCap s transport window target then [capHit s.maxBytes target] else [] := by
  obtain ⟨htarget, hgaps, hok, htruncated⟩ :=
    readPrevious_spec s transport window target
  unfold readOne readPodLogs PodFetchOutcome.redacted readCurrent fails hitsCap
  generalize hprevious : readPrevious s.parser s.instant s.selector
    (transport.openStream s.maxBytes window.seconds target) target = outcome
  rw [show readPrevious s.parser s.instant s.selector (streamOf s transport window target) target =
    outcome from hprevious] at htarget hgaps hok htruncated
  have hcomes : Comes (streamOf s transport window target .current) (readInstance s.parser
      s.selector outcome.target .current
      (transport.openStream s.maxBytes window.seconds target .current)) := readInstance_comes _
  cases hread : readInstance s.parser s.selector outcome.target .current
      (transport.openStream s.maxBytes window.seconds target .current) with
  | error f =>
    rw [hread] at hcomes
    rw [show _ = some f from hcomes]
    refine ⟨htarget, rfl, ?_⟩
    dsimp only
    rw [hgaps, htarget, List.nil_append]
  | ok read =>
    rw [hread] at hcomes
    rw [hcomes.1, ← hcomes.2, ← htruncated]
    refine ⟨htarget, hok, ?_⟩
    unfold PodFetchOutcome.extend PodFetchOutcome.announced
    dsimp only
    rw [hgaps, htarget, List.nil_append]

end

/-! ## Reading to the end -/

/-- The chunks of a response that are read: up to the one that reaches the cap. -/
def chunksTaken (maxBytes : ℕ) : (total : ℕ) → List Chunk → List Chunk
  | _, [] => []
  | total, chunk :: chunks =>
    if chunk.bytes = 0 then chunksTaken maxBytes total chunks
    else if maxBytes ≤ total + chunk.bytes then [chunk]
    else chunk :: chunksTaken maxBytes (total + chunk.bytes) chunks

/-- The text that is read of a response. -/
def textTaken (maxBytes total : ℕ) (chunks : List Chunk) : Text :=
  (chunksTaken maxBytes total chunks).flatMap Chunk.text

/-- **A line of a response is flagged** where it reaches the cap inside a line. -/
theorem flagged_response_iff {maxBytes : ℕ} (chunks : List Chunk) {buffer : Text} (total : ℕ)
    (hbuffer : '\n' ∉ buffer) :
    (iterLinesFromResponse maxBytes buffer total chunks).any Item.hitCap = true ↔
      (0 < (chunks.map Chunk.bytes).sum ∧ maxBytes ≤ total + (chunks.map Chunk.bytes).sum) ∧
        ¬ Text.EndsAtFeed (buffer ++ textTaken maxBytes total chunks) := by
  induction chunks generalizing buffer total with
  | nil =>
    rw [iterLinesFromResponse]
    split <;> simp
  | cons chunk chunks ih =>
    rw [iterLinesFromResponse, textTaken, chunksTaken, List.map_cons, List.sum_cons]
    by_cases hzero : chunk.bytes = 0
    · rw [if_pos hzero, if_pos hzero, hzero, Nat.zero_add]
      exact ih total hbuffer
    obtain ⟨lines, begun, hsplit, htext, -, hbegun⟩ :=
      Text.exists_splitOn (buffer ++ chunk.text)
    have hplain : (lines.map fun line => (⟨line, total + chunk.bytes, false⟩ : Item)).any
        Item.hitCap = false := by
      rw [List.any_map]
      exact List.any_eq_false.2 fun _ _ => Bool.false_ne_true
    rw [if_neg hzero, if_neg hzero]
    dsimp only
    rw [hsplit, List.getLastD_concat, List.dropLast_concat, List.any_append, hplain,
      Bool.false_or]
    by_cases hcap : maxBytes ≤ total + chunk.bytes
    · rw [if_pos hcap, if_pos hcap, List.flatMap_singleton, htext, Text.endsAtFeed_ended_append,
        Text.endsAtFeed_begun hbegun, and_iff_right (by omega)]
      split
      · next hnil => exact iff_of_false Bool.false_ne_true fun hne => hne hnil
      · next hne => exact iff_of_true rfl hne
    · rw [if_neg hcap, if_neg hcap, ih _ hbegun, List.flatMap_cons, ← List.append_assoc, htext,
        List.append_assoc, Text.endsAtFeed_ended_append]
      refine and_congr_left fun _ => ?_
      omega

/-- A line of a text is flagged where the text reaches the cap. -/
theorem flagged_text_iff {maxBytes : ℕ} (lines : List Text) (total : ℕ) :
    (iterLinesFromText maxBytes total lines).any Item.hitCap = true ↔
      0 < (lines.map fun line => utf8Length line + 1).sum ∧
        maxBytes ≤ total + (lines.map fun line => utf8Length line + 1).sum := by
  induction lines generalizing total with
  | nil => simp [iterLinesFromText]
  | cons line lines ih =>
    unfold iterLinesFromText
    dsimp only
    rw [List.map_cons, List.sum_cons]
    split
    · refine iff_of_true rfl ⟨?_, ?_⟩ <;> omega
    · rw [List.any_cons, Bool.false_or, ih]
      omega

section

variable {σ : Type u} {ρ : Type v} (s : Settings σ ρ) (transport : Transport) (window : TimeWindow)

/-- Whether the log a read is answered with reaches the cap. -/
def capReached (target : PodTarget) (wanted : Instance) : Bool :=
  match transport with
  | .live answers => (answers target wanted).capped s.maxBytes
  | .fixtures files =>
    let size := (files target.podNamespace target.podName wanted).elim 0 fun text =>
      ((Text.linesOf text).map fun line => utf8Length line + 1).sum
    0 < size && s.maxBytes ≤ size

/-- The log a read is answered with is cut where a line ends: it reaches the cap, and what is read
of it by then ends in a line break. -/
def CutAfterLine (target : PodTarget) (wanted : Instance) : Prop :=
  match transport with
  | .live answers => (answers target wanted).capped s.maxBytes = true ∧
      Text.EndsAtFeed (textTaken s.maxBytes 0 (answers target wanted).chunks)
  | .fixtures _ => False

/-- The log was read to its end: no cap, no failure. -/
def readToEnd (target : PodTarget) (wanted : Instance) : Bool :=
  !capReached s transport target wanted &&
    (streamOf s transport window target wanted).failure.isNone

end

/-! ## What is promised, and when -/

section

variable {σ : Type u} {ρ : Type v} (s : Settings σ ρ) (transport : Transport) (window : TimeWindow)
  (now : Moment) (found : DiscoveryResult) (run : PoolRun found.targets)
  (restartedAt : PodTarget → ℤ)

/-- How far back a container's logs were read to reach. -/
def keptSpan (target : PodTarget) : PodSpan where
  podName := target.podName
  container := target.container
  oldestLine :=
    if target ∈ run.returned then (readOne s transport window target).oldestLineTimestamp else none
  startTime := target.startTime

/-- The oldest line of a container that can be dated. -/
def oldestOf (target : PodTarget) : Option Moment :=
  (keptSpan s transport window found run target).oldest s.clock

/-- A read is of the instance it is for, and reaches its end. -/
def ReadWhole (target : PodTarget) (wanted : Instance) : Prop :=
  transport.served s.maxBytes window.seconds target wanted = wanted ∧
    readToEnd s transport window target wanted = true

/-- What the line says of a container: its log was read to its end, and the previous instance's
where that reaches past the restart; and its lines reach back. -/
structure Covered (target : PodTarget) (completeFrom : Moment) : Prop where
  returned : target ∈ run.returned
  current : ReadWhole s transport window target .current
  previous : target.restarted = true → completeFrom.instant < restartedAt target →
    ReadWhole s transport window target .previous
  reaches : ∀ m ∈ oldestOf s transport window found run target, m.instant ≤ completeFrom.instant

/-- The coverage line, where it is said, is borne out. -/
def Honest : Prop :=
  ∀ note ∈ (fetchLive s transport window now found run).notes, ∀ target ∈ found.targets,
    Covered s transport window found run restartedAt target note.completeFrom

/-- A gap that the coverage line heeds: by discovery, by the deadline, by a pod that vanished, by a
flagged cap, or by judging the spans. -/
inductive Announced : Prop
  | discovery {gap : EvidenceGap} (hgap : gap ∈ found.gaps) (h : gap.gapType.spansGap = true)
  | deadline (h : run.timedOut = true)
  | vanished {target : PodTarget} (ht : target ∈ run.returned)
      (h : fails s transport window target = some ⟨some 404⟩)
  | capped {target : PodTarget} (ht : target ∈ run.returned)
      (hread : fails s transport window target = none)
      (h : hitsCap s transport window target = true)
  | judged (h : detectAnchoredGaps s.clock s.slack window now
      (found.targets.map (keptSpan s transport window found run)) ≠ [])

/-- Nothing was read: every read failed, and no line of any is within the window. -/
structure NothingRead : Prop where
  some_read : run.completed ≠ []
  failed : ∀ target ∈ run.returned, fails s transport window target ≠ none
  no_lines : ∀ target ∈ run.returned, ∀ r ∈ (readOne s transport window target).records,
    window.excludes s.clock (s.timestamp r.parsed) = true

/-- A container whose reads fall short without a gap: a read that raised, a failure that is no
vanished pod, a cap reached at the end of a line, or a previous instance that was not read. -/
inductive SilentlyShort (target : PodTarget) (completeFrom : Moment) : Prop
  | raised (h : run.raised target = true)
  | failed {failure : Failure} (h : fails s transport window target = some failure)
  | cut (h : CutAfterLine s transport target .current)
  | previous (h : target.restarted = true) (hbefore : completeFrom.instant < restartedAt target)
      (hno : ¬ ReadWhole s transport window target .previous)

/-- The newest of the containers' oldest lines. -/
structure NewestOldest (m : Moment) : Prop where
  some_line : ∃ target ∈ found.targets, m ∈ oldestOf s transport window found run target
  newest : ∀ target ∈ found.targets, ∀ other ∈ oldestOf s transport window found run target,
    other.instant ≤ m.instant

/-- The line is not said; or no container is silently short of the newest oldest line, which falls
on a whole second. -/
def Vouched : Prop :=
  window.anchor = none ∨ Announced s transport window now found run ∨
    NothingRead s transport window found run ∨
    ∀ m, NewestOldest s transport window found run m → m.instant % 1000000 = 0 ∧
      ∀ target ∈ found.targets, ¬ SilentlyShort s transport window found run restartedAt target m

end

section

variable {σ : Type u} {ρ : Type v} {s : Settings σ ρ} {transport : Transport} {window : TimeWindow}
  {now : Moment} {found : DiscoveryResult} {run : PoolRun found.targets}
  {restartedAt : PodTarget → ℤ}

variable (window) in
/-- **A log that reaches the cap** is flagged there, or cut where a line ends. -/
theorem capReached_iff {target : PodTarget} {wanted : Instance} :
    capReached s transport target wanted = true ↔
      (streamOf s transport window target wanted).flagged = true ∨
        CutAfterLine s transport target wanted := by
  cases transport with
  | live answers =>
    have hflagged : (streamOf s (.live answers) window target wanted).flagged = true ↔ _ :=
      flagged_response_iff (answers target wanted).chunks 0 List.not_mem_nil
    have hcapped : capReached s (.live answers) target wanted =
        (answers target wanted).capped s.maxBytes := rfl
    rw [hflagged, hcapped, CutAfterLine, Response.capped, Response.size, Nat.zero_add,
      Bool.and_eq_true, decide_eq_true_eq, decide_eq_true_eq, ← and_or_left, List.nil_append]
    exact (and_iff_left (Classical.em _).symm).symm
  | fixtures files =>
    rw [CutAfterLine, or_false, capReached, streamOf, Transport.openStream, openFixture]
    cases files target.podNamespace target.podName wanted with
    | none => exact iff_of_false Bool.false_ne_true Bool.false_ne_true
    | some text =>
      have hflagged : (Stream.mk (iterLinesFromText s.maxBytes 0 (Text.linesOf text))
          none).flagged = true ↔ _ := flagged_text_iff (Text.linesOf text) 0
      rw [hflagged, Nat.zero_add, Option.elim_some, Bool.and_eq_true, decide_eq_true_eq,
        decide_eq_true_eq]

theorem readAll_oldest : (readAll s transport window run).oldestLineByTarget =
    (joined s transport window run).oldestLineByTarget := rfl

/-- The span of a target is what was read of it. -/
theorem spanOf_eq (hnodup : (found.targets.map PodTarget.targetKey).Nodup) {target : PodTarget}
    (ht : target ∈ found.targets) :
    spanOf (readAll s transport window run).oldestLineByTarget target =
      keptSpan s transport window found run target := by
  have hkeys : (run.returned.map (readOne s transport window)).map
      (fun r => r.target.targetKey) = run.returned.map PodTarget.targetKey := by
    rw [List.map_map]
    refine List.map_congr_left fun t _ => ?_
    rw [Function.comp_apply, (readOne_spec t).1]
  have holdest := foldl_oldest s (run.returned.map (readOne s transport window))
    (RetrievalOutcome.start s run) (hkeys ▸ run.returned_nodup hnodup) target.targetKey
  have hsame : ∀ t ∈ run.returned, t.targetKey = target.targetKey → t = target := fun t hreturned =>
    List.inj_on_of_nodup_map hnodup (run.mem_targets (run.mem_returned.1 hreturned)) ht
  have hresult : (joined s transport window run).oldestLineByTarget target.targetKey =
      if target ∈ run.returned then (readOne s transport window target).oldestLineTimestamp
      else none := by
    refine holdest.trans ?_
    rw [List.find?_map]
    cases hfind : run.returned.find? ((fun r : PodFetchOutcome ρ =>
        decide (r.target.targetKey = target.targetKey)) ∘ readOne s transport window) with
    | none =>
      rw [if_neg fun hreturned => ?_]
      · rfl
      · have hkey := List.find?_eq_none.1 hfind target hreturned
        rw [Function.comp_apply, (readOne_spec target).1, decide_eq_true_eq] at hkey
        exact hkey rfl
    | some t =>
      have hkey := List.find?_some hfind
      rw [Function.comp_apply, (readOne_spec t).1, decide_eq_true_eq] at hkey
      have hmem := List.mem_of_find?_eq_some hfind
      obtain rfl := hsame t hmem hkey
      rw [if_pos hmem]
      rfl
  unfold spanOf keptSpan
  rw [readAll_oldest, hresult]

theorem mem_readOne_gaps {target : PodTarget} {gap : EvidenceGap} :
    gap ∈ (readOne s transport window target).gaps ↔
      fails s transport window target = some ⟨some 404⟩ ∧ gap = podVanished target ∨
        fails s transport window target = none ∧ hitsCap s transport window target = true ∧
          gap = capHit s.maxBytes target := by
  rw [(readOne_spec target).2.2]
  cases fails s transport window target with
  | some failure =>
    obtain ⟨status⟩ := failure
    by_cases hstatus : status = some 404
    · simp [hstatus]
    · simp [hstatus]
  | none =>
    by_cases hcap : hitsCap s transport window target = true
    · simp [hcap]
    · simp [hcap]

theorem mem_readAll_gaps {gap : EvidenceGap} :
    gap ∈ (readAll s transport window run).gaps ↔
      run.timedOut = true ∧ gap = budgetExpired s.budget run.unfinished ∨
        ∃ target ∈ run.returned, gap ∈ (readOne s transport window target).gaps := by
  have hgaps : (readAll s transport window run).gaps =
      (RetrievalOutcome.start s run).gaps ++
        (run.returned.map (readOne s transport window)).flatMap PodFetchOutcome.gaps :=
    (foldl_add s _ _).2.1
  have hstart : gap ∈ (RetrievalOutcome.start s run : RetrievalOutcome ρ).gaps ↔
      run.timedOut = true ∧ gap = budgetExpired s.budget run.unfinished := by
    unfold RetrievalOutcome.start
    by_cases htimed : run.timedOut = true
    · simp [htimed]
    · simp [htimed]
  rw [hgaps, List.mem_append, hstart, List.flatMap_map, List.mem_flatMap]

/-- A degraded parse is not what the line heeds. -/
theorem not_spansGap_degraded {stats : ParseStats} {gap : EvidenceGap}
    (h : gap ∈ (detectParseDegradationGap s stats).toList) : gap.gapType.spansGap = false := by
  unfold detectParseDegradationGap at h
  split at h
  · cases h
  · obtain ⟨measured, -, rfl⟩ := Option.map_eq_some_iff.1 (Option.mem_toList.1 h)
    rfl

/-- **The gaps that the line heeds are the announced ones.** -/
theorem any_collected_iff (hnodup : (found.targets.map PodTarget.targetKey).Nodup)
    (hanchor : window.anchor.isSome = true) :
    (collectedGaps s window now found (readAll s transport window run)).any
        (·.gapType.spansGap) = true ↔ Announced s transport window now found run := by
  have hspans : found.targets.map (spanOf (readAll s transport window run).oldestLineByTarget) =
      found.targets.map (keptSpan s transport window found run) :=
    List.map_congr_left fun target ht => spanOf_eq hnodup ht
  have hjudged : judgedGaps s window now found.targets (readAll s transport window run) =
      detectAnchoredGaps s.clock s.slack window now
        (found.targets.map (keptSpan s transport window found run)) := by
    unfold judgedGaps
    rw [if_pos hanchor, hspans]
  unfold collectedGaps
  rw [any_dedupeGaps, hjudged, List.any_eq_true]
  simp only [List.mem_append, mem_readAll_gaps]
  constructor
  · rintro ⟨gap, ((hgap | ⟨htimed, -⟩ | ⟨target, ht, hgap⟩) | hgap) | hgap, hspan⟩
    · exact .discovery hgap hspan
    · exact .deadline htimed
    · rcases mem_readOne_gaps.1 hgap with ⟨hfails, -⟩ | ⟨hread, hcap, -⟩
      · exact .vanished ht hfails
      · exact .capped ht hread hcap
    · exact .judged (List.ne_nil_of_mem hgap)
    · rw [not_spansGap_degraded hgap] at hspan
      cases hspan
  · intro h
    cases h with
    | @discovery gap hgap h => exact ⟨gap, .inl (.inl (.inl hgap)), h⟩
    | deadline h => exact ⟨_, .inl (.inl (.inr (.inl ⟨h, rfl⟩))), rfl⟩
    | @vanished target ht h =>
      have hgap := mem_readOne_gaps.2 (.inl ⟨h, rfl⟩)
      exact ⟨_, .inl (.inl (.inr (.inr ⟨target, ht, hgap⟩))), rfl⟩
    | @capped target ht hread h =>
      have hgap := mem_readOne_gaps.2 (.inr ⟨hread, h, rfl⟩)
      exact ⟨_, .inl (.inl (.inr (.inr ⟨target, ht, hgap⟩))), rfl⟩
    | judged h =>
      obtain ⟨gap, hgap⟩ := List.exists_mem_of_ne_nil _ h
      exact ⟨gap, .inl (.inr hgap), spansGap_of_judged (detectAnchoredGaps_judged gap hgap)⟩

variable (run) in
theorem completed_length : run.completed.length =
    (run.completed.filter (·.2 = .raised)).length + run.returned.length := by
  unfold PoolRun.returned
  induction run.completed with
  | nil => rfl
  | cons item completed ih =>
    obtain ⟨target, fate⟩ := item
    cases fate with
    | returned =>
      rw [List.length_cons, ih]
      rfl
    | raised =>
      rw [List.length_cons, ih]
      exact Nat.succ_add _ _ |>.symm

/-- The fetch fails exactly where nothing was read. -/
theorem nothingRead_iff :
    (0 < (readAll s transport window run).podsQueried ∧
      (readAll s transport window run).podsFailed = (readAll s transport window run).podsQueried ∧
      (readAll s transport window run).records = []) ↔
    NothingRead s transport window found run := by
  obtain ⟨hrecords, -, hqueried, hfailed⟩ := foldl_add s
    (run.returned.map (readOne s transport window)) (RetrievalOutcome.start s run)
  have hlength := completed_length run
  have hsome : 0 < (readAll s transport window run).podsQueried ↔ run.completed ≠ [] := by
    have hcount : (readAll s transport window run).podsQueried = run.completed.length := by
      rw [hlength]
      exact hqueried.trans (congrArg _ (List.length_map _))
    rw [hcount, List.length_pos_iff]
  have hall : (readAll s transport window run).podsFailed =
      (readAll s transport window run).podsQueried ↔
      ∀ target ∈ run.returned, fails s transport window target ≠ none := by
    have hstart : (RetrievalOutcome.start s run : RetrievalOutcome ρ).podsFailed =
        (RetrievalOutcome.start s run : RetrievalOutcome ρ).podsQueried := rfl
    have hfailed' : (readAll s transport window run).podsFailed = _ := hfailed
    have hqueried' : (readAll s transport window run).podsQueried = _ := hqueried
    rw [hfailed', hqueried', hstart, Nat.add_left_cancel_iff, List.length_filter_eq_length_iff]
    constructor
    · intro h target ht hnone
      have hok := h _ (List.mem_map_of_mem ht)
      rw [(readOne_spec target).2.1, hnone] at hok
      cases hok
    · intro h result hresult
      obtain ⟨target, ht, rfl⟩ := List.mem_map.1 hresult
      rw [(readOne_spec target).2.1]
      cases hfails : fails s transport window target with
      | none => exact (h target ht hfails).elim
      | some failure => rfl
  have hnone : (readAll s transport window run).records = [] ↔
      ∀ target ∈ run.returned, ∀ r ∈ (readOne s transport window target).records,
        window.excludes s.clock (s.timestamp r.parsed) = true := by
    unfold readAll joined
    dsimp only
    rw [hrecords, List.filter_eq_nil_iff]
    constructor
    · intro h target ht r hr
      have hkept := h r ((List.perm_insertionSort _ _).mem_iff.2 (List.mem_append_right _
        (List.mem_flatMap.2 ⟨_, List.mem_map_of_mem ht, hr⟩)))
      simpa using hkept
    · intro h r hr
      rcases List.mem_append.1 ((List.perm_insertionSort _ _).mem_iff.1 hr) with hr | hr
      · cases hr
      · obtain ⟨result, hresult, hr⟩ := List.mem_flatMap.1 hr
        obtain ⟨target, ht, rfl⟩ := List.mem_map.1 hresult
        simp [h target ht r hr]
  rw [hsome, hall, hnone]
  exact ⟨fun ⟨h, h', h''⟩ => ⟨h, h', h''⟩, fun ⟨h, h', h''⟩ => ⟨h, h', h''⟩⟩

/-- A coverage line is said of the newest oldest line, where the fetch read something and no gap
says otherwise. -/
theorem mem_notes_iff (hnodup : (found.targets.map PodTarget.targetKey).Nodup) {note : CoverageNote} :
    note ∈ (resultOf s window now found (readAll s transport window run)).notes ↔
      ¬ NothingRead s transport window found run ∧
      ∃ anchor, window.anchor = some anchor ∧ ¬ Announced s transport window now found run ∧
      ∃ m, latest (found.targets.filterMap (oldestOf s transport window found run)) = some m ∧
        note = ⟨m.toSecond, (anchor.astimezone m).toSecond⟩ := by
  have holdest : (found.targets.map (spanOf (readAll s transport window run).oldestLineByTarget)
      ).filterMap (PodSpan.oldest s.clock) =
      found.targets.filterMap (oldestOf s transport window found run) := by
    rw [List.filterMap_map]
    refine List.filterMap_congr fun target ht => ?_
    rw [Function.comp_apply, spanOf_eq hnodup ht]
    rfl
  unfold resultOf
  dsimp only
  split
  · next hnothing =>
    exact ⟨nofun, fun h => (h.1 (nothingRead_iff.1 hnothing)).elim⟩
  · next hread =>
    rw [nothingRead_iff] at hread
    rw [Option.mem_toList]
    unfold coverageNote
    rw [holdest]
    cases hanchor : window.anchor with
    | none => exact ⟨nofun, fun ⟨_, _, h, _⟩ => nomatch h⟩
    | some anchor =>
      dsimp only
      have hany : _ ↔ Announced s transport window now found run :=
        any_collected_iff hnodup (by rw [hanchor]; rfl)
      split
      · next h => exact ⟨nofun, fun ⟨_, _, _, hno, _⟩ => (hno (hany.1 h)).elim⟩
      · next h =>
        rw [Option.map_eq_some_iff]
        constructor
        · rintro ⟨m, hm, rfl⟩
          exact ⟨hread, anchor, rfl, fun hno => h (hany.2 hno), m, hm, rfl⟩
        · rintro ⟨-, _, hsame, -, m, hm, rfl⟩
          obtain rfl := Option.some.inj hsame
          exact ⟨m, hm, rfl⟩

theorem newest_latest {m : Moment}
    (h : latest (found.targets.filterMap (oldestOf s transport window found run)) = some m) :
    NewestOldest s transport window found run m := by
  obtain ⟨hmem, hle⟩ := latest_spec h
  obtain ⟨target, ht, hline⟩ := List.mem_filterMap.1 hmem
  refine ⟨⟨target, ht, hline⟩, fun other hother m' hm' => hle m' ?_⟩
  exact List.mem_filterMap.2 ⟨other, hother, hm'⟩

theorem latest_of_newest {m : Moment} (h : NewestOldest s transport window found run m) :
    ∃ top, latest (found.targets.filterMap (oldestOf s transport window found run)) = some top := by
  obtain ⟨target, ht, hline⟩ := h.some_line
  have hmem := List.mem_filterMap.2 ⟨target, ht, hline⟩
  cases hl : found.targets.filterMap (oldestOf s transport window found run) with
  | nil =>
    rw [hl] at hmem
    cases hmem
  | cons first rest => exact ⟨_, rfl⟩

theorem NewestOldest.instant_eq {m m' : Moment} (h : NewestOldest s transport window found run m)
    (h' : NewestOldest s transport window found run m') : m.instant = m'.instant := by
  obtain ⟨target, ht, hline⟩ := h.some_line
  obtain ⟨target', ht', hline'⟩ := h'.some_line
  exact Int.le_antisymm (h'.newest target ht m hline) (h.newest target' ht' m' hline')

/-- Only the instant matters. -/
theorem SilentlyShort.congr {m m' : Moment} {target : PodTarget}
    (h : SilentlyShort s transport window found run restartedAt target m)
    (hat : m.instant = m'.instant) :
    SilentlyShort s transport window found run restartedAt target m' := by
  cases h with
  | raised h => exact .raised h
  | failed h => exact .failed h
  | cut h => exact .cut h
  | previous h hbefore hno => exact .previous h (hat ▸ hbefore) hno

/-- A container whose reads came out, and which is not silently short where nothing is announced,
was read to its end. -/
theorem covered_of_not_short {m : Moment} {target : PodTarget} (ht : target ∈ found.targets)
    (hannounced : ¬ Announced s transport window now found run)
    (hshort : ¬ SilentlyShort s transport window found run restartedAt target m)
    (hreaches : ∀ other ∈ oldestOf s transport window found run target, other.instant ≤ m.instant) :
    Covered s transport window found run restartedAt target m := by
  have htimed : run.timedOut = false := by
    cases h : run.timedOut with
    | false => rfl
    | true => exact (hannounced (.deadline h)).elim
  have hreturned : target ∈ run.returned :=
    (run.comes_out htimed ht).resolve_right fun h => hshort (.raised h)
  have hread : fails s transport window target = none := by
    cases h : fails s transport window target with
    | none => rfl
    | some failure => exact (hshort (.failed h)).elim
  have hflagged : (streamOf s transport window target .current).flagged = false := by
    cases h : (streamOf s transport window target .current).flagged with
    | false => rfl
    | true =>
      refine (hannounced (.capped hreturned hread ?_)).elim
      unfold hitsCap
      rw [h, Bool.or_true]
  have hcap : capReached s transport target .current = false := by
    cases h : capReached s transport target .current with
    | false => rfl
    | true =>
      refine (hshort (.cut ?_)).elim
      exact ((capReached_iff window).1 h).resolve_left (ne_true_of_eq_false hflagged)
  have hfailure : (streamOf s transport window target .current).failure = none := by
    unfold fails Stream.raises at hread
    rwa [hflagged, if_neg Bool.false_ne_true] at hread
  refine ⟨hreturned, ⟨?_, ?_⟩, fun hrestarted hbefore => ?_, hreaches⟩
  · cases transport with
    | live answers => rfl
    | fixtures files => rfl
  · unfold readToEnd
    rw [hcap, hfailure]
    rfl
  · by_contra hno
    exact hshort (.previous hrestarted hbefore hno)

/-- What was read to its end is not silently short. -/
theorem Covered.not_short {m : Moment} {target : PodTarget}
    (hnodup : (found.targets.map PodTarget.targetKey).Nodup)
    (h : Covered s transport window found run restartedAt target m) :
    ¬ SilentlyShort s transport window found run restartedAt target m := by
  have hwhole := h.current.2
  unfold readToEnd at hwhole
  rw [Bool.and_eq_true, Bool.not_eq_true', Option.isNone_iff_eq_none] at hwhole
  obtain ⟨hcap, hfailure⟩ := hwhole
  intro hshort
  cases hshort with
  | raised hraised =>
    rw [run.not_raised hnodup h.returned] at hraised
    cases hraised
  | failed hfails =>
    unfold fails Stream.raises at hfails
    split at hfails
    · cases hfails
    · rw [hfailure] at hfails
      cases hfails
  | cut hcut =>
    rw [(capReached_iff window).2 (.inr hcut)] at hcap
    cases hcap
  | previous hrestarted hbefore hno => exact hno (h.previous hrestarted hbefore)

end

/-- Containers are discovered only where discovery does not fail. -/
theorem discoverTargets_ok {limits : Limits} {services : List Searched}
    (h : (limits.discoverTargets services).targets ≠ []) :
    (limits.discoverTargets services).ok = true := by
  unfold Limits.discoverTargets at h ⊢
  dsimp only at h ⊢
  split at h
  · exact (h rfl).elim
  · next hsome => rw [if_neg hsome]

section

variable {σ : Type u} {ρ : Type v} (s : Settings σ ρ) (transport : Transport) (window : TimeWindow)
  (now : Moment) (limits : Limits) (services : List Searched)
  (run : PoolRun (limits.discoverTargets services).targets) (restartedAt : PodTarget → ℤ)

/-- **The coverage line is honest exactly where it is not said, or no container is silently short
and the newest oldest line falls on a whole second.** -/
theorem honest_iff_vouched :
    Honest s transport window now (limits.discoverTargets services) run restartedAt ↔
      Vouched s transport window now (limits.discoverTargets services) run restartedAt := by
  have hnodup := discoverTargets_nodup limits services
  by_cases hempty : (limits.discoverTargets services).targets = []
  · constructor
    · intro _
      refine .inr (.inr (.inr fun m hm => ?_))
      obtain ⟨target, ht, -⟩ := hm.some_line
      rw [hempty] at ht
      cases ht
    · intro _ note _ target ht
      rw [hempty] at ht
      cases ht
  have hnotes : (fetchLive s transport window now (limits.discoverTargets services) run).notes =
      (resultOf s window now (limits.discoverTargets services)
        (readAll s transport window run)).notes := by
    unfold fetchLive
    rw [discoverTargets_ok hempty, if_neg (by decide), if_neg hempty]
  unfold Honest
  rw [hnotes]
  generalize limits.discoverTargets services = found at run hnodup
  constructor
  · intro h
    by_cases hanchor : window.anchor = none
    · exact .inl hanchor
    by_cases hannounced : Announced s transport window now found run
    · exact .inr (.inl hannounced)
    by_cases hnothing : NothingRead s transport window found run
    · exact .inr (.inr (.inl hnothing))
    refine .inr (.inr (.inr fun m hm => ?_))
    obtain ⟨anchor, hanchor⟩ := Option.ne_none_iff_exists'.1 hanchor
    obtain ⟨top, htop⟩ := latest_of_newest hm
    have hsame : top.instant = m.instant := (newest_latest htop).instant_eq hm
    have hcovered := h _ ((mem_notes_iff hnodup).2
      ⟨hnothing, anchor, hanchor, hannounced, top, htop, rfl⟩)
    have hwhole : top.instant % 1000000 = 0 := by
      obtain ⟨target, ht, hline⟩ := (newest_latest htop).some_line
      exact Moment.le_toSecond_iff.1 ((hcovered target ht).reaches top hline)
    refine ⟨hsame ▸ hwhole, fun target ht hshort => ?_⟩
    have hat : m.instant = top.toSecond.instant := by
      rw [Moment.toSecond_of_whole hwhole, hsame]
    exact (hcovered target ht).not_short hnodup (hshort.congr hat)
  · rintro h note hnote target ht
    obtain ⟨hread, anchor, hanchor, hannounced, m, hm, rfl⟩ := (mem_notes_iff hnodup).1 hnote
    have hnewest := newest_latest hm
    rcases h with hnone | hsome | hnothing | h
    · rw [hanchor] at hnone
      cases hnone
    · exact (hannounced hsome).elim
    · exact (hread hnothing).elim
    · obtain ⟨hwhole, hshort⟩ := h m hnewest
      have hat : m.toSecond.instant = m.instant := Moment.toSecond_of_whole hwhole
      refine covered_of_not_short ht hannounced (fun h => hshort target ht (h.congr hat)) ?_
      intro other hother
      rw [hat]
      exact hnewest.newest target ht other hother

end

/-! ## A pod that may not be read -/

/-- Every read returns, in order. -/
def PoolRun.inTime (targets : List PodTarget) : PoolRun targets where
  completed := targets.map (·, .returned)
  timedOut := false
  unfinished := 0
  submitted := by
    rw [List.map_map, show Prod.fst ∘ (·, Fate.returned) = id from rfl, List.map_id]
  awaited _ := by
    rw [List.map_map, show Prod.fst ∘ (·, Fate.returned) = id from rfl, List.map_id]

def tenOClock : Moment := ⟨1787652000000000, 0⟩

/-- A clock that writes one moment as Python does, and counts the others. -/
def oneMoment : Clock where
  fromisoformat text :=
    if text = "2026-08-25T10:00:00+00:00".toList then some tenOClock
    else if text = [] ∨ text.any (· ≠ 'x') then none
    else (Encodable.decode (text.length - 1) : Option (ℤ × ℤ)).map fun m => ⟨m.1, m.2⟩
  isoformat m :=
    if m = tenOClock then "2026-08-25T10:00:00+00:00".toList
    else List.replicate (Encodable.encode (m.instant, m.offset) + 1) 'x'
  fromisoformat_isoformat m := by
    split
    · next h => rw [if_pos rfl, h]
    · rw [if_neg, if_neg]
      · rw [List.length_replicate, Nat.add_sub_cancel, Encodable.encodek, Option.map_some]
      · simp
      · intro h
        have := congrArg (List.count '2') h
        simp [List.count_replicate] at this
  not_zulu m := by
    split
    · decide
    · intro h
      cases List.eq_of_mem_replicate h
  fromisoformat_nil := rfl

def plainSettings : Settings Unit Text where
  clock := oneMoment
  parser := plainLines
  timestamp line := line.takeWhile (· ≠ ' ')
  redact := id
  selector := keepAllSelector
  maxBytes := 10485760
  slack := 60000000
  budget := "60.0".toList
  measured _ := none

/-- A pod that runs one container. -/
def runningPod (name : Text) (named : name ≠ []) : Pod where
  name := name
  phase := "Running".toList
  startTime := none
  containers := ["app".toList]
  restarts := []
  named := named
  distinct := List.nodup_singleton _

def twoPods : List Searched :=
  [⟨"bio".toList, .ok
    { podNamespace := "enu".toList
      pods := [runningPod "bio-1".toList nofun, runningPod "bio-2".toList nofun]
      distinct := by decide }⟩]

/-- The first pod is read whole, the second may not be. -/
def oneForbidden : Transport := .live fun target _ =>
  if target.podName = "bio-1".toList then
    ⟨[⟨47, "2026-08-25T10:00:00+00:00 INFO packet received\n".toList⟩], none⟩
  else ⟨[], some ⟨some 403⟩⟩

def rejectedAtFive : TimeWindow where
  lookBack := 7200000000
  seconds := 7200
  anchor := some ⟨1787652300000000, 0⟩
  coverFrom := some tenOClock

def plainLimits : Limits := ⟨[], 20, 0⟩

/-- The logs are said to be complete, and nothing of the second pod was read. -/
theorem forbidden_pod_unsaid :
    let found := plainLimits.discoverTargets twoPods
    let run := PoolRun.inTime found.targets
    found.targets.map PodTarget.podName = ["bio-1".toList, "bio-2".toList] ∧
    ((fetchLive plainSettings oneForbidden rejectedAtFive tenOClock found run).notes.map
      CoverageNote.completeFrom) = [tenOClock] ∧
    (found.targets.map (fails plainSettings oneForbidden rejectedAtFive)) =
      [none, some ⟨some 403⟩] ∧
    ¬ Honest plainSettings oneForbidden rejectedAtFive tenOClock found run fun _ => 0 := by
  intro found run
  have hnames : found.targets.map PodTarget.podName = ["bio-1".toList, "bio-2".toList] := by decide
  have hnotes : ((fetchLive plainSettings oneForbidden rejectedAtFive tenOClock found run).notes.map
      CoverageNote.completeFrom) = [tenOClock] := by decide
  have hfails : (found.targets.map (fails plainSettings oneForbidden rejectedAtFive)) =
      [none, some ⟨some 403⟩] := by decide
  refine ⟨hnames, hnotes, hfails, fun h => ?_⟩
  have hnote : tenOClock ∈ (fetchLive plainSettings oneForbidden rejectedAtFive tenOClock found
      run).notes.map CoverageNote.completeFrom := hnotes ▸ List.mem_singleton_self _
  have hforbidden : some ⟨some 403⟩ ∈
      found.targets.map (fails plainSettings oneForbidden rejectedAtFive) :=
    hfails ▸ List.mem_cons_of_mem _ (List.mem_singleton_self _)
  obtain ⟨note, hnote, -⟩ := List.mem_map.1 hnote
  obtain ⟨target, ht, hfailed⟩ := List.mem_map.1 hforbidden
  exact (h note hnote target ht).not_short (discoverTargets_nodup _ _) (.failed hfailed)

end ResidentCrm.Logs
