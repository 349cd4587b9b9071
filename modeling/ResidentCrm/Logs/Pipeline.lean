import ResidentCrm.Dlt.Corroborate
import ResidentCrm.Lib.Joined
import ResidentCrm.Logs.Reducer
import ResidentCrm.Logs.Snapshot

/-!
# The log trace as text

`reduce_logs` of `log_pipeline/pipeline.py`, from what was fetched on, and the functions it formats
the trace with. What redaction makes of a message is a parameter.
-/

namespace ResidentCrm.Logs

open Text (joinLines)
open Dlt.Corroborate (contextLineMarker)

universe u

/-- What was fetched. -/
structure Fetched where
  records : List TraceRecord
  gaps : List EvidenceGap := []
  notes : List Text := []

/-- What a reduction runs with: the settings, the miner and its trained tree, the catalog, the
decision vocabulary, and redaction. -/
structure Pipeline (σ : Type u) where
  config : ReducerConfig := {}
  miner : TemplateMiner σ
  tree : σ
  getClassification : Text → Text
  vocabulary : Text → Bool
  redact : Text → Text

/-! ## Lines -/

/-- `_origin`. -/
def origin (record : TraceRecord) : Text :=
  if record.podName = [] then record.appName else record.appName ++ '@' :: record.podName

/-- `_context_tag`. -/
def contextTag (record : TraceRecord) : Text :=
  if record.isMatch then [] else ' ' :: contextLineMarker

/-- `[ts] [origin] [LEVEL]`, the tag and the message. -/
def recordLine (record : TraceRecord) : Text :=
  '[' :: (record.timestamp ++ "] [".toList ++ origin record ++ "] [".toList ++ record.level ++
    ']' :: (contextTag record ++ ' ' :: record.message))

/-- `_context_legend`. -/
def contextLegend (logs : List TraceRecord) : List Text :=
  if logs.any (·.identifierMatch = some false) then
    ["Lines tagged ".toList ++ contextLineMarker ++
      (" did not carry the searched identifier; they were kept as surrounding context and may " ++
        "belong to another transaction on the same pod.").toList]
  else []

/-- A trace of fewer than fifty records. -/
def smallHeading (eventId : Text) (logs : List TraceRecord) : List Text :=
  ("--- Log Trace for ID: ".toList ++ eventId ++ " ---".toList) :: contextLegend logs

def smallEnd (total : ℕ) : List Text :=
  ["--- End of Trace (".toList ++ Text.ofNat total ++ " logs total) ---".toList]

def smallLines (eventId : Text) (total : ℕ) (logs : List TraceRecord) : List Text :=
  smallHeading eventId logs ++ logs.map recordLine ++ smallEnd total

/-! ## The ERROR path -/

def gutter (record : TraceRecord) : Text :=
  if record.isError then " *** ".toList else "     ".toList

def entryLines (entry : WindowEntry) : List Text :=
  (gutter entry.record ++ recordLine entry.record) ::
    (entry.note.map fun note => "          ".toList ++ note).toList

def errorHeading (eventId : Text) (total : ℕ) (window : List WindowEntry) : List Text :=
  ["--- ERROR DETECTED in log trace for ID: ".toList ++ eventId ++ " ---".toList,
    "Total raw logs: ".toList ++ Text.ofNat total,
    "Showing ERROR(s) + ".toList ++ Text.ofNat (window.flatMap entryLines).length ++
      " surrounding context lines:".toList] ++
    contextLegend (window.map WindowEntry.record) ++ [[]]

def errorEnd : List Text := [[], "--- End of ERROR context ---".toList]

/-- `_format_error_path`. -/
def errorLines (eventId : Text) (total : ℕ) (window : List WindowEntry) : List Text :=
  errorHeading eventId total window ++ window.flatMap entryLines ++ errorEnd

/-! ## The normal path -/

/-- `_time_only`. -/
def timeOnly (timestamp : Text) : Text :=
  if 'T' ∈ timestamp then (timestamp.dropWhile (· ≠ 'T')).drop 1 else timestamp

/-- A line of the boundaries or of the decision vocabulary. -/
def plainLine (record : TraceRecord) : Text :=
  "  [".toList ++ (record.timestamp ++ "] [".toList ++ record.level ++ "] ".toList ++ record.message)

def Cluster.span (cluster : Cluster) : Text :=
  if cluster.lastSeen = [] ∨ cluster.lastSeen = cluster.firstSeen then cluster.firstSeen
  else cluster.firstSeen ++ "..".toList ++ timeOnly cluster.lastSeen

/-- The first of a cluster's lines. -/
def Cluster.firstLine (cluster : Cluster) : Text :=
  let counted := cluster.templateId ++ "] x".toList ++ Text.ofNat cluster.count
  "  [".toList ++ match cluster.examples with
    | [] => counted ++ " [".toList ++ cluster.classification ++ "] [".toList ++ cluster.span ++
        "] ".toList ++ cluster.template
    | ex :: _ =>
      if cluster.count = 1 then cluster.templateId ++ "] x1 [".toList ++ cluster.span ++
        "] ".toList ++ ex
      else counted ++ " [".toList ++ cluster.classification ++ "] [".toList ++ cluster.span ++ [']']

def Cluster.lines (cluster : Cluster) : List Text :=
  cluster.firstLine ::
    if cluster.count = 1 then []
    else (cluster.examples.take 3).map fun ex => "      ".toList ++ ex

def normalHeading (eventId : Text) (total : ℕ) (assembled : Assembled) : List Text :=
  ["--- Reduced Log Analysis for ID: ".toList ++ eventId ++ " ---".toList,
    "Total raw logs: ".toList ++ Text.ofNat total,
    "Compressed into ".toList ++ Text.ofNat assembled.clusters.length ++
      " structural templates.".toList,
    "Rare templates (count < 5) and decision-vocabulary matches are kept in full.".toList, []]

def boundaryHeading : List Text := ["== Flow Boundaries ==".toList]

def decisionHeading (assembled : Assembled) : List Text :=
  let shown := Text.ofNat assembled.decisionVocabularyLines.length
  if assembled.decisionVocabularyOmitted = 0 then
    ["== Decision-Vocabulary Matches (".toList ++ shown ++ " lines) ==".toList]
  else
    ["== Decision-Vocabulary Matches (".toList ++ shown ++ " of ".toList ++
      Text.ofNat (assembled.decisionVocabularyLines.length +
        assembled.decisionVocabularyOmitted) ++ " lines; the middle was omitted) ==".toList]

/-- The marker at the seam of the decision vocabulary. -/
def decisionSeam (assembled : Assembled) : List Text :=
  if assembled.decisionVocabularyOmitted = 0 then []
  else ["  ... ".toList ++ Text.ofNat assembled.decisionVocabularyOmitted ++
    " further decision-vocabulary lines omitted (LOG_MAX_DECISION_LINES) ...".toList]

def Assembled.half (assembled : Assembled) : ℕ :=
  if assembled.decisionVocabularyOmitted = 0 then assembled.decisionVocabularyLines.length
  else assembled.decisionVocabularyLines.length / 2

def boundarySection (assembled : Assembled) : List Text :=
  if assembled.boundaryLines = [] then []
  else boundaryHeading ++ assembled.boundaryLines.map plainLine ++ [[]]

def decisionSection (assembled : Assembled) : List Text :=
  if assembled.decisionVocabularyLines = [] then []
  else decisionHeading assembled ++
    (assembled.decisionVocabularyLines.take assembled.half).map plainLine ++
    decisionSeam assembled ++
    (assembled.decisionVocabularyLines.drop assembled.half).map plainLine ++ [[]]

def clusterHeading : List Text := ["== Template Clusters (ordered by first appearance) ==".toList]

def normalEnd : List Text := ["--- End of Reduced Log Analysis ---".toList]

/-- `_format_normal_path`. -/
def normalLines (eventId : Text) (total : ℕ) (assembled : Assembled) : List Text :=
  normalHeading eventId total assembled ++ boundarySection assembled ++
    decisionSection assembled ++ clusterHeading ++ assembled.clusters.flatMap Cluster.lines ++
    normalEnd

/-! ## Banner and ceiling -/

/-- `EvidenceGap.describe`. -/
def EvidenceGap.describe (gap : EvidenceGap) : Text := gap.gapType.value ++ ": ".toList ++ gap.detail

/-- `render_banner`. -/
def renderBanner (gaps : List EvidenceGap) : Text :=
  if gaps = [] then []
  else joinLines ("--- EVIDENCE GAPS (the trace below is INCOMPLETE) ---".toList ::
    gaps.map EvidenceGap.describe ++ ["--- END EVIDENCE GAPS ---".toList])

def droppedNote (report : NoiseReport) (totalFetched : ℕ) : List Text :=
  if report.droppedBelowLevel = 0 then []
  else [Text.ofNat report.droppedBelowLevel ++ " of ".toList ++ Text.ofNat totalFetched ++
    " lines below ".toList ++ report.minLevel ++ " were omitted (LOG_MIN_LEVEL).".toList]

def collapsedNote (report : NoiseReport) : List Text :=
  if report.sqlCollapsed = 0 then []
  else [Text.ofNat report.sqlCollapsed ++ (" SQL statements had their column lists replaced with " ++
    "a count (LOG_COLLAPSE_SQL); tables and predicates are unchanged.").toList]

/-- `_noise_banner`. -/
def noiseBanner (report : NoiseReport) (totalFetched : ℕ) : Text :=
  let parts := droppedNote report totalFetched ++ collapsedNote report
  if parts = [] then [] else "NOTE: ".toList ++ [' '].intercalate parts

/-- `"\n".join(part for part in parts if part)`. -/
def joinSome (parts : List Text) : Text := joinLines (parts.filter (· ≠ []))

/-- The line of the marker at the seam of a trace that is too long. -/
def omittedNotice (omitted : ℕ) : Text :=
  "... ".toList ++ Text.ofNat omitted ++
    " characters omitted from the middle of this trace (LOG_MAX_REDUCED_CHARS) ...".toList

section

variable (limit : ℤ) (body : Text)

/-- `len(body) - MAX_REDUCED_CHARS`. -/
def excess : ℕ := (body.length - limit).toNat

def seam : Text := "\n\n".toList ++ omittedNotice (excess limit body) ++ "\n\n".toList

/-- How many characters are kept on each side. -/
def keep : ℕ := (max 0 ((limit - (seam limit body).length) / 2)).toNat

/-- Where `body[-keep:]` starts: a `keep` of zero keeps it whole. -/
def tailStart : ℕ := if keep limit body = 0 then 0 else body.length - keep limit body

/-- `_bound_total_size`. -/
def boundTotalSize : Text :=
  if (body.length : ℤ) ≤ limit then body
  else body.take (keep limit body) ++ seam limit body ++ body.drop (tailStart limit body)

end

/-- `_with_banner`. -/
def withBanner (limit : ℤ) (banner body : Text) : Text :=
  if banner = [] then boundTotalSize limit body
  else banner ++ "\n\n".toList ++ boundTotalSize limit body

/-! ## The trace -/

section

variable {σ : Type u} (p : Pipeline σ) (eventId : Text) (fetched : Fetched)

/-- The banner of the gaps, and what else is said ahead of the trace. -/
def gapBanner : Text := joinSome (renderBanner fetched.gaps :: fetched.notes)

/-- `redact_records`. -/
def redactRecords (records : List TraceRecord) : List TraceRecord :=
  records.map fun record => { record with message := p.redact record.message }

/-- The noise floor, unless it would empty the trace. -/
def floored : List TraceRecord × NoiseReport :=
  let records := redactRecords p fetched.records
  let (kept, report) := applyNoiseFloor p.config records
  if kept = [] then (records, { report with droppedBelowLevel := 0, sqlCollapsed := 0 })
  else (kept, report)

def fullBanner : Text :=
  joinSome [gapBanner fetched, noiseBanner (floored p fetched).2 fetched.records.length]

/-- The lines of the trace, by the path that the records take. -/
def traceLines : List Text :=
  let logs := (floored p fetched).1
  let total := fetched.records.length
  if logs.length < 50 then smallLines eventId total logs
  else match branchOnError p.config logs with
    | some payload => errorLines eventId total (collapseErrorWindow p.miner p.config payload)
    | none => normalLines eventId total <| applyEvidenceGuardrails p.config p.vocabulary
        (clusterLogs p.miner p.getClassification p.tree logs) logs

/-- `reduce_logs`, from what was fetched on. -/
def reduceLogs : Text :=
  if fetched.records = [] then
    let empty := "No logs found for ID: ".toList ++ eventId
    if gapBanner fetched = [] then empty else gapBanner fetched ++ '\n' :: empty
  else
    withBanner p.config.maxReducedChars (fullBanner p fetched)
      (joinLines (traceLines p eventId fetched))

end

end ResidentCrm.Logs
