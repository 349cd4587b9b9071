import ResidentCrm.Lib.Json
import Mathlib.Data.List.Sort
import Mathlib.Logic.Function.Basic

/-!
# The log reducer

`log_pipeline/reducer.py` with `log_pipeline/config.py`: the noise floor, the window around the
errors, the clusters and what is kept of them. The miner of templates is a parameter, and so are the
catalog's classification of a template and the decision vocabulary.
-/

namespace ResidentCrm.Logs

universe u

/-- A `LogRecord`, as far as it is shown: the pod is empty where there is none, and an absent
`identifier_match` is `none`. -/
structure TraceRecord where
  timestamp : Text
  level : Text
  message : Text
  appName : Text
  podName : Text := []
  identifierMatch : Option Bool := none
deriving DecidableEq, Repr

/-- `record.get("identifier_match", True)`. -/
def TraceRecord.isMatch (record : TraceRecord) : Bool := record.identifierMatch.getD true

/-- `str.upper`, as far as comparing with the name of a level can tell: of what is beyond ASCII only
the dotless i has an upper case in one. -/
def upperLevel (level : Text) : Text :=
  Text.upper (Text.replace 'ı' 'i' level)

def TraceRecord.isError (record : TraceRecord) : Bool := upperLevel record.level = "ERROR".toList

/-- The level is one that is never folded or collapsed. -/
def TraceRecord.isEvidence (record : TraceRecord) : Bool :=
  upperLevel record.level ∈ ["ERROR".toList, "WARN".toList]

/-- The settings of `config.py`. -/
structure ReducerConfig where
  errorContextLines : ℤ := 200
  errorTrailingLines : ℤ := 200
  errorRepeatThreshold : ℤ := 3
  minLevel : Text := "INFO".toList
  collapseSql : Bool := true
  rareTemplateThreshold : ℤ := 5
  boilerplateCountThreshold : ℤ := 5
  maxDecisionVocabularyLines : ℤ := 300
  maxReducedChars : ℤ := 120000

/-! ## Noise floor -/

/-- `LEVEL_ORDER`. -/
def levelOrder : List (Text × ℕ) :=
  [("TRACE".toList, 0), ("DEBUG".toList, 10), ("INFO".toList, 20), ("WARN".toList, 30),
    ("ERROR".toList, 40)]

/-- `_count_items`. -/
def countItems (fragment : Text) : ℕ :=
  let step (state : ℤ × ℕ) (char : Char) : ℤ × ℕ :=
    if char = '(' then (state.1 + 1, state.2)
    else if char = ')' then (state.1 - 1, state.2)
    else if char = ',' ∧ state.1 = 0 then (state.1, state.2 + 1)
    else state
  if fragment.all Text.isSpace then 0 else (fragment.foldl step (0, 0)).2 + 1

/-- The ways a pattern matches at the start of a text, in the order they are tried: what each takes
and what follows it. -/
abbrev Ways := Text → List (Text × Text)

namespace Ways

def andThen (p q : Ways) : Ways := fun s =>
  (p s).flatMap fun taken => (q taken.2).map fun taken' => (taken.1 ++ taken'.1, taken'.2)

/-- A greedy run of at least `least` characters. -/
def greedy (least : ℕ) (p : Char → Bool) : Ways := fun s =>
  (((List.range ((s.takeWhile p).length + 1)).reverse.filter (least ≤ ·))).map fun k =>
    (s.take k, s.drop k)

/-- `.+?`. -/
def someAny : Ways := fun s => (List.range s.length).map fun k => (s.take (k + 1), s.drop (k + 1))

/-- A word, given in lower case. -/
def word (w : Text) : Ways := fun s =>
  ((Text.afterPattern w s).map fun rest => (s.take w.length, rest)).toList

/-- `.*$`. -/
def toEnd : Ways := fun s => [(s, [])]

def spaces : Ways := greedy 1 Text.isSpace

/-- `\s*`, a word and `\s+`. -/
def statement (w : Text) : Ways := (greedy 0 Text.isSpace).andThen ((word w).andThen spaces)

/-- `\s+`, a word, `\s+` and the rest. -/
def clause (w : Text) : Ways := spaces.andThen ((word w).andThen (spaces.andThen toEnd))

end Ways

/-- A pattern of three groups, and what the second of them lists. -/
structure SqlPattern where
  head : Ways
  body : Ways
  tail : Ways
  noun : Text

/-- `pattern.match(message).groups()`. -/
def SqlPattern.groups (pattern : SqlPattern) (message : Text) : Option (Text × Text × Text) :=
  ((pattern.head message).flatMap fun head => (pattern.body head.2).flatMap fun body =>
    (pattern.tail body.2).map fun tail => (head.1, body.1, tail.1)).head?

/-- `_SQL_SELECT`. -/
def sqlSelect : SqlPattern where
  head := Ways.statement "select".toList
  body := Ways.someAny
  tail := Ways.clause "from".toList
  noun := "columns".toList

/-- `_SQL_INSERT`. -/
def sqlInsert : SqlPattern where
  head := (Ways.statement "insert".toList).andThen <| (Ways.word "into".toList).andThen <|
    Ways.spaces.andThen <| (Ways.greedy 1 (!Text.isSpace ·)).andThen <|
      (Ways.greedy 0 Text.isSpace).andThen (Ways.word "(".toList)
  body := Ways.greedy 0 (· ≠ ')')
  tail := (Ways.word ")".toList).andThen Ways.toEnd
  noun := "columns".toList

/-- `_SQL_UPDATE`. -/
def sqlUpdate : SqlPattern where
  head := (Ways.statement "update".toList).andThen <| (Ways.greedy 1 (!Text.isSpace ·)).andThen <|
    Ways.spaces.andThen <| (Ways.word "set".toList).andThen Ways.spaces
  body := Ways.someAny
  tail := Ways.clause "where".toList
  noun := "assignments".toList

/-- `collapse_sql`. -/
def collapseSql (config : ReducerConfig) (message : Text) : Text :=
  if !config.collapseSql then message
  else
    let matched := [sqlSelect, sqlInsert, sqlUpdate].findSome? fun pattern =>
      (pattern.groups message).map fun groups => (pattern.noun, groups)
    match matched with
    | none => message
    | some (noun, head, body, tail) =>
      if countItems body < 3 then message
      else head ++ '<' :: (Text.ofNat (countItems body) ++ ' ' :: noun ++ " elided>".toList ++ tail)

structure NoiseReport where
  droppedBelowLevel : ℕ
  minLevel : Text
  sqlCollapsed : ℕ
deriving DecidableEq, Repr

section

variable (config : ReducerConfig)

/-- The rank below which a record is dropped. -/
def noiseFloor : ℕ := min ((levelOrder.lookup config.minLevel).getD 20) 30

def belowFloor (record : TraceRecord) : Bool :=
  (levelOrder.lookup (upperLevel record.level)).any (· < noiseFloor config)

def shortened (record : TraceRecord) : TraceRecord :=
  { record with message := collapseSql config record.message }

/-- `apply_noise_floor`. -/
def applyNoiseFloor (logs : List TraceRecord) : List TraceRecord × NoiseReport :=
  let kept := logs.filter (!belowFloor config ·)
  (kept.map (shortened config),
    { droppedBelowLevel := logs.countP (belowFloor config)
      minLevel := config.minLevel
      sqlCollapsed := kept.countP fun record =>
        collapseSql config record.message ≠ record.message })

/-! ## The window around the errors -/

/-- `logs[start:stop]`. -/
def pySlice {α : Type u} (l : List α) (start stop : ℤ) : List α :=
  let at' (i : ℤ) : ℕ := (if i < 0 then i + l.length else i).toNat
  (l.take (at' stop)).drop (at' start)

/-- `branch_on_error`: the payload, where there is an error. -/
def branchOnError (logs : List TraceRecord) : Option (List TraceRecord) :=
  let errorIndices := (List.range logs.length).filter fun i =>
    (logs[i]?).any TraceRecord.isError
  match errorIndices.head?, errorIndices.getLast? with
  | some first, some last =>
    some (pySlice logs (max 0 (first - config.errorContextLines))
      (min logs.length (last + 1 + config.errorTrailingLines)))
  | _, _ => none

end

/-- A miner of templates: its tree before any message, what a message does to the tree and the
cluster it is put in, and the clusters of a tree with their templates. -/
structure TemplateMiner (σ : Type u) where
  fresh : σ
  addLogMessage : σ → Text → σ × ℕ
  clusters : σ → List (ℕ × Text)

section

variable {σ : Type u} (miner : TemplateMiner σ)

/-- `local_template_ids`. -/
def localTemplateIds : (tree : σ) → List TraceRecord → List ℕ
  | _, [] => []
  | tree, entry :: logs =>
    let (tree', id) := miner.addLogMessage tree entry.message
    id :: localTemplateIds tree' logs

/-- A record of the window, and the `_note` that follows it. -/
structure WindowEntry where
  record : TraceRecord
  note : Option Text := none
deriving DecidableEq, Repr

/-- The second loop of `collapse_error_window`. -/
def foldRepeats (counts : ℕ → ℕ) (lastTs : ℕ → Text) (threshold : ℤ) :
    (seen : List ℕ) → List (TraceRecord × ℕ) → List WindowEntry
  | _, [] => []
  | seen, (record, tid) :: logs =>
    if record.isEvidence ∨ (counts tid : ℤ) < threshold then
      { record } :: foldRepeats counts lastTs threshold seen logs
    else if tid ∉ seen then
      { record, note := "(+".toList ++ Text.ofNat (counts tid - 1) ++
          " further lines matching this template, last at ".toList ++ lastTs tid ++ [')'] } ::
        foldRepeats counts lastTs threshold (tid :: seen) logs
    else foldRepeats counts lastTs threshold seen logs

/-- `collapse_error_window`. -/
def collapseErrorWindow (config : ReducerConfig) (logs : List TraceRecord) : List WindowEntry :=
  if (logs.length : ℤ) < config.errorRepeatThreshold then logs.map fun record => { record }
  else
    let ids := localTemplateIds miner miner.fresh logs
    let lastTs (tid : ℕ) : Text :=
      (((logs.zip ids).reverse.find? (·.2 = tid)).map fun entry => entry.1.timestamp).getD []
    foldRepeats (ids.count ·) lastTs config.errorRepeatThreshold [] (logs.zip ids)

/-! ## Clusters -/

structure ClusterMeta where
  firstSeen : Text
  lastSeen : Text
  examples : List Text := []
  count : ℕ := 0
  hasError : Bool := false
deriving DecidableEq, Repr

def ClusterMeta.add (entry : TraceRecord) (known : Option ClusterMeta) : ClusterMeta :=
  let now := known.getD { firstSeen := entry.timestamp, lastSeen := entry.timestamp }
  { now with
    lastSeen := entry.timestamp
    count := now.count + 1
    hasError := now.hasError || entry.isEvidence
    examples := if now.examples.length < 3 then now.examples ++ [entry.message] else now.examples }

structure Cluster where
  templateId : Text
  template : Text
  count : ℕ
  firstSeen : Text
  lastSeen : Text
  classification : Text
  examples : List Text
  hasError : Bool
deriving DecidableEq, Repr

/-- `f"t_{cid:04d}"`. -/
def templateId (cid : ℕ) : Text :=
  "t_".toList ++ List.replicate (4 - (Text.ofNat cid).length) '0' ++ Text.ofNat cid

/-- The loop of `cluster_logs`. -/
def feed : (tree : σ) → (clusterMeta : ℕ → Option ClusterMeta) → List TraceRecord →
    σ × (ℕ → Option ClusterMeta)
  | tree, clusterMeta, [] => (tree, clusterMeta)
  | tree, clusterMeta, entry :: logs =>
    let (tree', cid) := miner.addLogMessage tree entry.message
    feed tree' (Function.update clusterMeta cid (some (.add entry (clusterMeta cid)))) logs

/-- `cluster_logs`, in a tree that other packets trained. -/
def clusterLogs (getClassification : Text → Text) (tree : σ) (logs : List TraceRecord) :
    List Cluster :=
  let (tree', clusterMeta) := feed miner tree (fun _ => none) logs
  let clustersOutput := (miner.clusters tree').filterMap fun (cid, template) =>
    (clusterMeta cid).map fun known =>
      { templateId := templateId cid
        template
        count := known.count
        firstSeen := known.firstSeen
        lastSeen := known.lastSeen
        classification := getClassification (templateId cid)
        examples := known.examples
        hasError := known.hasError : Cluster }
  clustersOutput.insertionSort fun a b => a.firstSeen ≤ b.firstSeen

end

/-! ## Guardrails -/

/-- `_bound_head_and_tail`. -/
def boundHeadAndTail {α : Type u} (items : List α) (limit : ℤ) : List α × ℕ :=
  if limit ≤ 0 ∨ (items.length : ℤ) ≤ limit then (items, 0)
  else
    let head := limit.toNat / 2
    let tail := limit.toNat - head
    (items.take head ++ items.drop (items.length - tail), items.length - limit.toNat)

structure Assembled where
  clusters : List Cluster
  decisionVocabularyLines : List TraceRecord
  decisionVocabularyOmitted : ℕ
  boundaryLines : List TraceRecord
deriving DecidableEq, Repr

section

variable (config : ReducerConfig)

/-- What is kept of a cluster. -/
def guardCluster (cluster : Cluster) : Cluster :=
  if cluster.hasError then cluster
  else if cluster.classification = "boilerplate".toList then { cluster with examples := [] }
  else if (cluster.count : ℤ) < config.rareTemplateThreshold then
    { cluster with classification := "rare".toList }
  else if config.boilerplateCountThreshold ≤ cluster.count then
    { cluster with classification := "repetitive".toList, examples := [] }
  else cluster

/-- `apply_evidence_guardrails`. -/
def applyEvidenceGuardrails (vocabulary : Text → Bool) (clusters : List Cluster)
    (rawLogs : List TraceRecord) : Assembled :=
  let decision := boundHeadAndTail (rawLogs.filter (vocabulary ·.message))
    config.maxDecisionVocabularyLines
  { clusters := clusters.map (guardCluster config)
    decisionVocabularyLines := decision.1
    decisionVocabularyOmitted := decision.2
    boundaryLines := rawLogs.head?.toList ++
      if 1 < rawLogs.length then rawLogs.getLast?.toList else [] }

end

end ResidentCrm.Logs
