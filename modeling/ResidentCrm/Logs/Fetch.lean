import ResidentCrm.Logs.Discovery
import ResidentCrm.Logs.Gaps
import ResidentCrm.Logs.Retrieval

/-!
# One fetch

`read_all` of `log_pipeline/sources/k8s/retrieval.py` and the live path of
`KubernetesLogSource._fetch`. Which reads finish, in which order and how, is the pool's doing; what
an API call is answered is the cluster's.
-/

namespace ResidentCrm.Logs

universe u v

/-! ## Transports -/

/-- The live cluster, by what it answers for each read, or the fixtures. -/
inductive Transport where
  | live (answers : PodTarget → Instance → Response)
  | fixtures (files : Fixtures)

namespace Transport

variable (maxBytes windowSeconds : ℕ)

/-- `_open_stream`. -/
def openStream (transport : Transport) (target : PodTarget) (wanted : Instance) : Stream :=
  match transport with
  | live answers =>
    openLive (fun _ => answers target wanted) maxBytes windowSeconds target wanted
  | fixtures files => openFixture files maxBytes target wanted

/-- The instance whose log a read is of. -/
def served (transport : Transport) (target : PodTarget) (wanted : Instance) : Instance :=
  match transport with
  | live _ => (logRequest maxBytes windowSeconds target).served
  | fixtures _ => wanted

end Transport

/-! ## The pool -/

/-- `target_key`s by what was read of them; a missing one reads as `None`. -/
abbrev OldestByTarget := Text × Text × Text → Option Text

structure RetrievalOutcome (ρ : Type v) where
  records : List (LogRecord ρ) := []
  gaps : List EvidenceGap := []
  stats : ParseStats := {}
  bytesRead : ℕ := 0
  podsQueried : ℕ := 0
  podsFailed : ℕ := 0
  oldestLineTimestamp : Option Text := none
  earliestPodStart : Option Moment := none
  oldestLineByTarget : OldestByTarget := fun _ => none

/-- How a future comes out: with the outcome of its pod, or raising. -/
inductive Fate where
  | returned
  | raised
deriving DecidableEq, Repr

/-- What the pool makes of the reads: those that finish in time, as they do, and whether the
deadline ended the wait, with how many reads were not done then. -/
structure PoolRun (targets : List PodTarget) where
  completed : List (PodTarget × Fate)
  timedOut : Bool
  unfinished : ℕ
  submitted : (completed.map Prod.fst).Subperm targets
  awaited : timedOut = false → (completed.map Prod.fst).Perm targets

def PoolRun.raised {targets : List PodTarget} (run : PoolRun targets) (target : PodTarget) : Bool :=
  (target, Fate.raised) ∈ run.completed

def PoolRun.returned {targets : List PodTarget} (run : PoolRun targets) : List PodTarget :=
  run.completed.filterMap fun (target, fate) => if fate = .returned then some target else none

/-- The reads that the deadline left. -/
def budgetExpired (budget : Text) (unfinished : ℕ) : EvidenceGap where
  gapType := .truncated
  detail := "the ".toList ++ budget ++ "s fetch budget expired with ".toList ++
    Text.ofNat unfinished ++ " pod(s) unread; their logs are not represented below.".toList
  context := [("unfinished_pods".toList, .nat unfinished)]

/-- What a fetch is configured with. `measured` is the share of the lines without a level, as it is
shown and as it is recorded, where it is at the threshold or over. -/
structure Settings (σ : Type u) (ρ : Type v) where
  clock : Clock
  parser : Parser ρ
  timestamp : ρ → Text
  redact : ρ → ρ
  selector : Selector σ
  maxBytes : ℕ
  slack : ℤ
  budget : Text
  measured : ParseStats → Option (Text × Number)

section

variable {σ : Type u} {ρ : Type v} (s : Settings σ ρ) (transport : Transport) (window : TimeWindow)
  (now : Moment)

/-- The instant of a timestamp. -/
def Settings.instant (timestamp : Text) : Option ℤ :=
  (s.clock.parseRecordTimestamp timestamp).map Moment.instant

/-- `read_pod_logs` of one target. -/
def readOne (target : PodTarget) : PodFetchOutcome ρ :=
  readPodLogs s.parser s.instant s.redact s.selector s.maxBytes
    (transport.openStream s.maxBytes window.seconds target) target

/-- `earliest_pod_start`. -/
def earlier (earliest started : Option Moment) : Option Moment :=
  match started, earliest with
  | none, _ => earliest
  | some started, none => some started
  | some started, some earliest =>
    if started.instant < earliest.instant then some started else some earliest

/-- The outcome of a pod joins the others. -/
def RetrievalOutcome.add (outcome : RetrievalOutcome ρ) (result : PodFetchOutcome ρ) :
    RetrievalOutcome ρ where
  records := outcome.records ++ result.records
  gaps := outcome.gaps ++ result.gaps
  stats :=
    { total := outcome.stats.total + result.stats.total
      levelParsed := outcome.stats.levelParsed + result.stats.levelParsed
      jsonLines := outcome.stats.jsonLines + result.stats.jsonLines }
  bytesRead := outcome.bytesRead + result.bytesRead
  podsQueried := outcome.podsQueried + 1
  podsFailed := outcome.podsFailed + if result.ok then 0 else 1
  oldestLineTimestamp := older s.instant outcome.oldestLineTimestamp result.oldestLineTimestamp
  earliestPodStart := earlier outcome.earliestPodStart result.target.startTime
  oldestLineByTarget :=
    Function.update outcome.oldestLineByTarget result.target.targetKey result.oldestLineTimestamp

/-- `_ordering_key`, compared. -/
def orderedBefore (a b : LogRecord ρ) : Bool :=
  let at' (r : LogRecord ρ) := s.timestamp r.parsed
  at' a < at' b || (at' a = at' b && (a.containerInstance = .previous || b.containerInstance = .current))

/-- What the pool left before any outcome joins: each raised read is a queried pod that failed. -/
def RetrievalOutcome.start {targets : List PodTarget} (run : PoolRun targets) :
    RetrievalOutcome ρ :=
  let failed := (run.completed.filter (·.2 = .raised)).length
  { podsQueried := failed
    podsFailed := failed
    gaps := if run.timedOut then [budgetExpired s.budget run.unfinished] else [] }

/-- The outcomes that were returned, joined. -/
def joined {targets : List PodTarget} (run : PoolRun targets) : RetrievalOutcome ρ :=
  (run.returned.map (readOne s transport window)).foldl (RetrievalOutcome.add s)
    (RetrievalOutcome.start s run)

/-- `read_all`. -/
def readAll {targets : List PodTarget} (run : PoolRun targets) : RetrievalOutcome ρ :=
  let outcome := joined s transport window run
  { outcome with
    records := (outcome.records.insertionSort (orderedBefore s · ·)).filter fun r =>
      !window.excludes s.clock (s.timestamp r.parsed) }

/-! ## The result -/

/-- `detect_parse_degradation_gap`. -/
def detectParseDegradationGap (stats : ParseStats) : Option EvidenceGap :=
  if stats.total = 0 then none
  else (s.measured stats).map fun (percent, rate) =>
    { gapType := .levelParseDegraded
      detail := percent ++ " of ".toList ++ Text.ofNat stats.total ++
        (" lines had no recognisable log level. ERROR detection is unreliable for this fetch; " ++
          "the absence of ERROR lines below must not be read as an absence of errors.").toList
      context := [("failure_rate".toList, .scalar (.number rate)),
        ("total_lines".toList, .nat stats.total)] }

def spanOf (oldest : OldestByTarget) (target : PodTarget) : PodSpan where
  podName := target.podName
  container := target.container
  oldestLine := oldest target.targetKey
  startTime := target.startTime

/-- The rotation and the replaced pods of a window, as it is judged with an anchor and without. -/
def judgedGaps (targets : List PodTarget) (outcome : RetrievalOutcome ρ) : List EvidenceGap :=
  if window.anchor.isSome then
    detectAnchoredGaps s.clock s.slack window now (targets.map (spanOf outcome.oldestLineByTarget))
  else
    (detectRotationGap s.clock s.slack window now outcome.oldestLineTimestamp
      outcome.earliestPodStart).toList ++
    detectPodReplacedGaps s.clock window now
      (targets.map fun target => (target.podName, target.startTime))

/-- The gaps of a fetch. -/
def collectedGaps (found : DiscoveryResult) (outcome : RetrievalOutcome ρ) : List EvidenceGap :=
  dedupeGaps [] (found.gaps ++ outcome.gaps ++ judgedGaps s window now found.targets outcome ++
    (detectParseDegradationGap s outcome.stats).toList)

structure FetchResult (ρ : Type v) where
  records : List (LogRecord ρ) := []
  gaps : List EvidenceGap := []
  notes : List CoverageNote := []
  ok : Bool := true

/-- What is made of the outcome of the reads. -/
def resultOf (found : DiscoveryResult) (outcome : RetrievalOutcome ρ) : FetchResult ρ :=
  let collected := collectedGaps s window now found outcome
  let spans := found.targets.map (spanOf outcome.oldestLineByTarget)
  if 0 < outcome.podsQueried ∧ outcome.podsFailed = outcome.podsQueried ∧ outcome.records = [] then
    { gaps := collected, ok := false }
  else
    { records := outcome.records
      gaps := collected
      notes := (coverageNote s.clock window spans collected).toList }

/-- `KubernetesLogSource._fetch`, where no snapshot is reused. -/
def fetchLive (found : DiscoveryResult) (run : PoolRun found.targets) : FetchResult ρ :=
  if !found.ok then { ok := false }
  else if found.targets = [] then { gaps := found.gaps }
  else resultOf s window now found (readAll s transport window run)

end

/-! ## The reads, joined -/

namespace PoolRun

variable {targets : List PodTarget} (run : PoolRun targets)

theorem mem_returned {target : PodTarget} :
    target ∈ run.returned ↔ (target, Fate.returned) ∈ run.completed := by
  unfold returned
  rw [List.mem_filterMap]
  constructor
  · rintro ⟨⟨t, fate⟩, hmem, hsome⟩
    dsimp only at hsome
    split at hsome
    · next hfate =>
      obtain rfl := Option.some.inj hsome
      rwa [hfate] at hmem
    · cases hsome
  · intro hmem
    exact ⟨_, hmem, if_pos rfl⟩

theorem returned_sublist : run.returned.Sublist (run.completed.map Prod.fst) := by
  unfold returned
  induction run.completed with
  | nil => exact List.Sublist.refl _
  | cons item completed ih =>
    obtain ⟨target, fate⟩ := item
    cases fate with
    | returned => exact ih.cons_cons target
    | raised => exact ih.cons target

/-- The keys of what comes out are distinct, as those of the targets are. -/
theorem completed_nodup (h : (targets.map PodTarget.targetKey).Nodup) :
    ((run.completed.map Prod.fst).map PodTarget.targetKey).Nodup := by
  obtain ⟨l, hperm, hsub⟩ := run.submitted
  exact ((hperm.map _).nodup_iff).1 ((hsub.map _).nodup h)

theorem returned_nodup (h : (targets.map PodTarget.targetKey).Nodup) :
    (run.returned.map PodTarget.targetKey).Nodup :=
  (run.returned_sublist.map _).nodup (run.completed_nodup h)

theorem mem_targets {target : PodTarget} {fate : Fate} (h : (target, fate) ∈ run.completed) :
    target ∈ targets :=
  run.submitted.subset (List.mem_map_of_mem h)

/-- Without the deadline every target comes out, one way or the other. -/
theorem comes_out (h : run.timedOut = false) {target : PodTarget} (ht : target ∈ targets) :
    target ∈ run.returned ∨ run.raised target = true := by
  have hmem := (run.awaited h).mem_iff.2 ht
  obtain ⟨⟨t, fate⟩, hcompleted, rfl⟩ := List.mem_map.1 hmem
  cases fate with
  | returned => exact .inl (run.mem_returned.2 hcompleted)
  | raised => exact .inr (decide_eq_true hcompleted)

/-- No target comes out both ways. -/
theorem not_raised (h : (targets.map PodTarget.targetKey).Nodup) {target : PodTarget}
    (ht : target ∈ run.returned) : run.raised target = false := by
  refine decide_eq_false fun hraised => ?_
  have hnodup : (run.completed.map Prod.fst).Nodup := (run.completed_nodup h).of_map _
  have hsame := List.inj_on_of_nodup_map hnodup (run.mem_returned.1 ht) hraised rfl
  cases hsame

end PoolRun

section

variable {σ : Type u} {ρ : Type v} (s : Settings σ ρ)

/-- What the outcomes of the pods come to, joined. -/
theorem foldl_add (results : List (PodFetchOutcome ρ)) (outcome : RetrievalOutcome ρ) :
    let whole := results.foldl (RetrievalOutcome.add s) outcome
    whole.records = outcome.records ++ results.flatMap PodFetchOutcome.records ∧
    whole.gaps = outcome.gaps ++ results.flatMap PodFetchOutcome.gaps ∧
    whole.podsQueried = outcome.podsQueried + results.length ∧
    whole.podsFailed = outcome.podsFailed + (results.filter (!·.ok)).length := by
  induction results generalizing outcome with
  | nil => simp
  | cons result results ih =>
    obtain ⟨hrecords, hgaps, hqueried, hfailed⟩ := ih (outcome.add s result)
    refine ⟨?_, ?_, ?_, ?_⟩
    · rw [List.foldl_cons, hrecords, List.flatMap_cons, ← List.append_assoc]
      rfl
    · rw [List.foldl_cons, hgaps, List.flatMap_cons, ← List.append_assoc]
      rfl
    · rw [List.foldl_cons, hqueried, List.length_cons]
      change outcome.podsQueried + 1 + _ = _
      omega
    · rw [List.foldl_cons, hfailed, List.filter_cons]
      change outcome.podsFailed + (if result.ok then 0 else 1) + _ = _
      cases result.ok with
      | true => simp
      | false =>
        simp only [Bool.not_false, if_true, List.length_cons, Bool.false_eq_true, if_false]
        omega

/-- The oldest line of a key is that of the outcome with this key. -/
theorem foldl_oldest (results : List (PodFetchOutcome ρ)) (outcome : RetrievalOutcome ρ)
    (hnodup : (results.map fun r => r.target.targetKey).Nodup) (key : Text × Text × Text) :
    (results.foldl (RetrievalOutcome.add s) outcome).oldestLineByTarget key =
      ((results.find? fun r => r.target.targetKey = key).elim
        (outcome.oldestLineByTarget key) PodFetchOutcome.oldestLineTimestamp) := by
  induction results generalizing outcome with
  | nil => rfl
  | cons result results ih =>
    rw [List.map_cons, List.nodup_cons] at hnodup
    rw [List.foldl_cons, ih _ hnodup.2, List.find?_cons]
    by_cases hkey : result.target.targetKey = key
    · have hnone : results.find? (fun r => r.target.targetKey = key) = none := by
        rw [List.find?_eq_none]
        intro r hr heq
        rw [decide_eq_true_eq] at heq
        exact hnodup.1 (List.mem_map.2 ⟨r, hr, heq.trans hkey.symm⟩)
      rw [hnone, hkey, decide_eq_true rfl]
      change Function.update _ _ _ _ = _
      rw [← hkey, Function.update_self]
      rfl
    · rw [decide_eq_false hkey]
      have hold : (outcome.add s result).oldestLineByTarget key = outcome.oldestLineByTarget key :=
        Function.update_of_ne (Ne.symm hkey) _ _
      rw [hold]

end

end ResidentCrm.Logs
