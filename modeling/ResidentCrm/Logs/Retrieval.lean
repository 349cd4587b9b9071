import ResidentCrm.Lib.Words
import ResidentCrm.Logs.Types

/-!
# Reading one container's logs

`_open_stream`, `_read_instance` and `read_pod_logs` of `log_pipeline/sources/k8s/retrieval.py`,
over the live API and over the fixtures, with the selectors of `filtering.py`. What `parse_line`
makes of a line and what redaction makes of a record are parameters: nothing here depends on them.
-/

namespace ResidentCrm

namespace Logs

universe u v

inductive Instance where
  | current
  | previous
deriving DecidableEq, Repr

/-! ## Streams -/

/-- A line of a stream, the bytes read so far, and whether the cap was hit. -/
structure Item where
  line : Text
  total : ℕ
  hitCap : Bool
deriving DecidableEq, Repr

/-- What is raised, with the status of an `ApiException`. -/
structure Failure where
  status : Option ℕ
deriving DecidableEq, Repr

/-- The lines a stream yields, and what it raises after them. -/
structure Stream where
  items : List Item
  failure : Option Failure
deriving DecidableEq, Repr

/-- A piece of a response: its bytes, and the text they decode to. -/
structure Chunk where
  bytes : ℕ
  text : Text
deriving DecidableEq, Repr

structure Response where
  chunks : List Chunk
  failure : Option Failure
deriving DecidableEq, Repr

/-- `_iter_lines_from_response`, with the carry buffer. -/
def iterLinesFromResponse (maxBytes : ℕ) : (buffer : Text) → (total : ℕ) → List Chunk → List Item
  | buffer, total, [] => if buffer = [] then [] else [⟨buffer, total, false⟩]
  | buffer, total, chunk :: chunks =>
    if chunk.bytes = 0 then iterLinesFromResponse maxBytes buffer total chunks
    else
      let pieces := (buffer ++ chunk.text).splitOn '\n'
      let rest := pieces.getLastD []
      pieces.dropLast.map (⟨·, total + chunk.bytes, false⟩) ++
        if maxBytes ≤ total + chunk.bytes then
          if rest = [] then [] else [⟨rest, total + chunk.bytes, true⟩]
        else iterLinesFromResponse maxBytes rest (total + chunk.bytes) chunks

/-- `len(line.encode("utf-8"))`. -/
def utf8Length (line : Text) : ℕ := (line.map Char.utf8Size).sum

/-- `_iter_lines_from_text`. -/
def iterLinesFromText (maxBytes : ℕ) : (total : ℕ) → List Text → List Item
  | _, [] => []
  | total, line :: lines =>
    let total := total + utf8Length line + 1
    if maxBytes ≤ total then [⟨line, total, true⟩]
    else ⟨line, total, false⟩ :: iterLinesFromText maxBytes total lines

/-- The arguments of `read_namespaced_pod_log`; `previous` is left out of the call and so false. -/
structure LogRequest where
  name : Text
  podNamespace : Text
  container : Text
  sinceSeconds : ℕ
  timestamps : Bool
  limitBytes : ℕ
  previous : Bool := false
deriving DecidableEq, Repr

/-- The instance whose log a request asks for. -/
def LogRequest.served (request : LogRequest) : Instance :=
  if request.previous then .previous else .current

def logRequest (maxBytes windowSeconds : ℕ) (target : PodTarget) : LogRequest where
  name := target.podName
  podNamespace := target.podNamespace
  container := target.container
  sinceSeconds := max 1 windowSeconds
  timestamps := true
  limitBytes := maxBytes

/-- How many bytes a response sends. -/
def Response.size (response : Response) : ℕ := (response.chunks.map Chunk.bytes).sum

/-- Whether a response reaches the cap; its reading ends there. -/
def Response.capped (maxBytes : ℕ) (response : Response) : Bool :=
  0 < response.size && maxBytes ≤ response.size

/-- The lines of a response; what it raises past the cap is not seen. -/
def Response.stream (maxBytes : ℕ) (response : Response) : Stream where
  items := iterLinesFromResponse maxBytes [] 0 response.chunks
  failure := if response.capped maxBytes then none else response.failure

/-- `_open_stream` of a live cluster. -/
def openLive (api : LogRequest → Response) (maxBytes windowSeconds : ℕ) (target : PodTarget)
    (_previous : Instance) : Stream :=
  (api (logRequest maxBytes windowSeconds target)).stream maxBytes

/-- The files of the fixtures, by namespace and pod. -/
abbrev Fixtures := Text → Text → Instance → Option Text

/-- `_open_stream` of the fixtures; `read_log` raises where there is no file. -/
def openFixture (files : Fixtures) (maxBytes : ℕ) (target : PodTarget) (wanted : Instance) :
    Stream :=
  match files target.podNamespace target.podName wanted with
  | none => ⟨[], some ⟨none⟩⟩
  | some text => ⟨iterLinesFromText maxBytes 0 (Text.linesOf text), none⟩

/-! ## Selectors -/

/-- A selector: its state after `reset`, and what it emits of a line, matched or not. -/
structure Selector (σ : Type u) where
  fresh : σ
  feed : σ → Text → List (Text × Bool) × σ

def keepAllSelector : Selector Unit where
  fresh := ()
  feed _ line := ([(line, true)], ())

/-- The lines held as leading context, and how many more are trailing context. -/
structure ContextWindow where
  held : List Text
  afterRemaining : ℕ

def contextWindowSelector (matcher : Text → Bool) (before after : ℕ) : Selector ContextWindow where
  fresh := ⟨[], 0⟩
  feed s line :=
    if matcher line then (s.held.map (·, false) ++ [(line, true)], ⟨[], after⟩)
    else if 0 < s.afterRemaining then ([(line, false)], ⟨s.held, s.afterRemaining - 1⟩)
    else
      let held := s.held ++ [line]
      ([], ⟨held.drop (held.length - before), 0⟩)

/-! ## One instance -/

structure LogRecord (ρ : Type v) where
  parsed : ρ
  podName : Text
  container : Text
  containerInstance : Instance
  identifierMatch : Bool
deriving DecidableEq, Repr

structure ParseStats where
  total : ℕ := 0
  levelParsed : ℕ := 0
  jsonLines : ℕ := 0
deriving DecidableEq, Repr

/-- `parse_line` with the app a line is ascribed to by default: the record, whether its level was
found, and whether it was JSON; and the stamp of `split_kubelet_timestamp`. -/
structure Parser (ρ : Type v) where
  parseLine : Text → Text → ρ × Bool × Bool
  stamp : Text → Option Text

/-- A record is its line. -/
def plainLines : Parser Text where
  parseLine line _ := (line, false, false)
  stamp line := some (line.takeWhile (· ≠ ' '))

structure InstanceRead (ρ : Type v) where
  records : List (LogRecord ρ) := []
  stats : ParseStats := {}
  totalBytes : ℕ := 0
  truncated : Bool := false
  oldestSeen : Option Text := none
deriving DecidableEq, Repr

section

variable {σ : Type u} {ρ : Type v} (parser : Parser ρ) (selector : Selector σ)
  (target : PodTarget) (inst : Instance)

/-- One line that the selector emits. -/
def InstanceRead.emit (read : InstanceRead ρ) (emitted : Text × Bool) : InstanceRead ρ :=
  let (parsed, levelOk, wasJson) := parser.parseLine emitted.1 target.container
  { read with
    records := read.records ++
      [⟨parsed, target.podName, target.container, inst, emitted.2⟩]
    stats :=
      { total := read.stats.total + 1
        levelParsed := read.stats.levelParsed + if levelOk then 1 else 0
        jsonLines := read.stats.jsonLines + if wasJson then 1 else 0 } }

/-- One line of the stream. -/
def InstanceRead.step (read : InstanceRead ρ) (s : σ) (item : Item) : InstanceRead ρ × σ :=
  let read := { read with totalBytes := item.total }
  if Text.strip item.line = [] then (read, s)
  else
    let (emitted, s) := selector.feed s item.line
    let read := { read with oldestSeen := read.oldestSeen.or (parser.stamp item.line) }
    (emitted.foldl (InstanceRead.emit parser target inst) read, s)

/-- The lines of the stream up to the cap. -/
def InstanceRead.loop (failure : Option Failure) :
    (read : InstanceRead ρ) → σ → List Item → Except Failure (InstanceRead ρ)
  | read, _, [] => match failure with
    | none => .ok read
    | some failure => .error failure
  | read, s, item :: items =>
    let (read, s) := read.step parser selector target inst s item
    if item.hitCap then .ok { read with truncated := true }
    else InstanceRead.loop failure read s items

/-- `_read_instance`. -/
def readInstance (stream : Stream) : Except Failure (InstanceRead ρ) :=
  InstanceRead.loop parser selector target inst stream.failure {} selector.fresh stream.items

end

/-! ## One target -/

structure PodFetchOutcome (ρ : Type v) where
  target : PodTarget
  records : List (LogRecord ρ) := []
  gaps : List EvidenceGap := []
  stats : ParseStats := {}
  bytesRead : ℕ := 0
  truncated : Bool := false
  ok : Bool := true
  error : Option Failure := none
  oldestLineTimestamp : Option Text := none

/-- The cap that a container's log hit, as it is announced. -/
def capHit (maxBytes : ℕ) (target : PodTarget) : EvidenceGap where
  gapType := .truncated
  detail := "pod ".toList ++ target.podName ++ '/' :: target.container ++ " hit the ".toList ++
    Text.ofNat maxBytes ++ " byte cap; older lines were not read.".toList
  context := [("pod_name".toList, .text target.podName),
    ("container".toList, .text target.container)]

/-- The pod was gone when its log was read. -/
def podVanished (target : PodTarget) : EvidenceGap where
  gapType := .podVanished
  detail := "pod ".toList ++ target.podName ++
    " disappeared between listing and reading; its logs are unrecoverable.".toList
  context := [("pod_name".toList, .text target.podName),
    ("namespace".toList, .text target.podNamespace)]

/-- `_older`: the earlier instant, or the lesser text where one of them cannot be read. -/
def older (instant : Text → Option ℤ) (current candidate : Option Text) : Option Text :=
  match current, candidate with
  | current, none => current
  | none, candidate => candidate
  | some current, some candidate => match instant current, instant candidate with
    | some currentAt, some candidateAt =>
      some (if candidateAt < currentAt then candidate else current)
    | _, _ => some (if candidate < current then candidate else current)

section

variable {σ : Type u} {ρ : Type v} (parser : Parser ρ) (instant : Text → Option ℤ)
  (redact : ρ → ρ) (selector : Selector σ) (maxBytes : ℕ)

/-- What is read of one instance joins the outcome. -/
def PodFetchOutcome.extend (outcome : PodFetchOutcome ρ) (read : InstanceRead ρ) :
    PodFetchOutcome ρ :=
  { outcome with
    records := outcome.records ++ read.records
    oldestLineTimestamp := older instant outcome.oldestLineTimestamp read.oldestSeen
    bytesRead := outcome.bytesRead + read.totalBytes
    truncated := outcome.truncated || read.truncated
    stats :=
      { total := outcome.stats.total + read.stats.total
        levelParsed := outcome.stats.levelParsed + read.stats.levelParsed
        jsonLines := outcome.stats.jsonLines + read.stats.jsonLines } }

/-- The previous instance of a restarted container; that it cannot be read is only logged. -/
def readPrevious (openStream : Instance → Stream) (target : PodTarget) : PodFetchOutcome ρ :=
  let outcome : PodFetchOutcome ρ := { target := target }
  if target.restarted then
    match readInstance parser selector target .previous (openStream .previous) with
    | .ok read => outcome.extend instant read
    | .error _ => outcome
  else outcome

/-- A cap that was hit is announced. -/
def PodFetchOutcome.announced (outcome : PodFetchOutcome ρ) : PodFetchOutcome ρ :=
  { outcome with
    gaps :=
      if outcome.truncated then outcome.gaps ++ [capHit maxBytes outcome.target]
      else outcome.gaps }

/-- The current instance after the previous one. -/
def readCurrent (openStream : Instance → Stream) (outcome : PodFetchOutcome ρ) :
    PodFetchOutcome ρ :=
  match readInstance parser selector outcome.target .current (openStream .current) with
  | .ok read => (outcome.extend instant read).announced maxBytes
  | .error failure =>
    { outcome with
      gaps :=
        if failure.status = some 404 then outcome.gaps ++ [podVanished outcome.target]
        else outcome.gaps
      ok := false
      error := some failure }

/-- `redact_records`, on every way out. -/
def PodFetchOutcome.redacted (outcome : PodFetchOutcome ρ) : PodFetchOutcome ρ :=
  { outcome with records := outcome.records.map fun r => { r with parsed := redact r.parsed } }

/-- `read_pod_logs`. -/
def readPodLogs (openStream : Instance → Stream) (target : PodTarget) : PodFetchOutcome ρ :=
  (readCurrent parser instant selector maxBytes openStream
    (readPrevious parser instant selector openStream target)).redacted redact

end

end Logs

end ResidentCrm
