import ResidentCrm.Lib.Words
import Mathlib.Data.List.Dedup
import Mathlib.Data.List.Sort

/-!
# The declared trace against the logs

`dlt/corroborate.py`: which lines of a log text are scanned, which of them belong to the packet, and
the verdict on a declared root cause. A root cause or a business code that is not given is the empty
text.
-/

namespace ResidentCrm

namespace Dlt

namespace Corroborate

inductive Verdict where
  | corroborated
  | partially
  | contradicted
  | unverifiable
deriving DecidableEq, Repr

/-! ## Lines -/

section

variable (alnum : Char → Bool)

/-- `_ERROR_LINE`. -/
def isErrorLine (line : Text) : Bool :=
  Text.hasWord alnum ["ERROR".toList, "FATAL".toList, "SEVERE".toList] none line

/-- `_MATCHABLE_LINE`. -/
def isMatchableLine (line : Text) : Bool :=
  Text.hasWord alnum ["ERROR".toList, "FATAL".toList, "SEVERE".toList, "WARN".toList,
    "WARNING".toList] none line

/-- `_LINE_START`: a bracket, behind white space and the gutter of an error. -/
def isLineStart (line : Text) : Bool :=
  let s := line.dropWhile Text.isSpace
  if "***".toList.isPrefixOf s then ((s.drop 3).dropWhile Text.isSpace).head? = some '['
  else s.head? = some '['

def contextLineMarker : Text := "[context]".toList

structure ScannedLine where
  text : Text
  attributed : Bool
  errorLevel : Bool
deriving DecidableEq

/-- Is the line the packet's, where the line above it was `inherited`? -/
def attribution (inherited : Bool) (line : Text) : Bool :=
  if isLineStart line then !Text.has contextLineMarker line else inherited

/-- `_scan_lines`. -/
def scanLines : (inherited : Bool) → List Text → List ScannedLine
  | _, [] => []
  | inherited, line :: lines =>
    let attributed := attribution inherited line
    (if isMatchableLine alnum line then
      [⟨Text.strip line, attributed, isErrorLine alnum line⟩] else []) ++
      scanLines attributed lines

/-! ## Exceptions -/

/-- `[a-z][\w$]*`, as far as a run of name characters and dots goes. -/
def startsLower (part : Text) : Bool := part.head?.any Char.isLower

/-- The longest beginning of a name that is `[A-Z][\w$]*(?:Exception|Error|Throwable)\b`. -/
def className (name : Text) : Option Text :=
  if name.head?.any Char.isUpper then
    name.inits.reverse.find? fun p =>
      ["Exception".toList, "Error".toList, "Throwable".toList].any (fun suffix =>
        suffix.isSuffixOf p && suffix.length < p.length) &&
      !(name.drop p.length).head?.any (Text.isWord alnum)
  else none

def inName (c : Char) : Bool := Text.isWord alnum c || c = '$' || c = '.'

/-- `_FQCN_IN_TEXT` at the start of a run of name characters and dots. -/
def fqcnHere (run : Text) : Option Text :=
  let parts := run.splitOn '.'
  let segments := parts.takeWhile startsLower
  match parts.dropWhile startsLower with
  | [] => none
  | name :: _ =>
    if segments.length < 2 then none
    else (className alnum name).map fun found =>
      run.take ((segments.map fun segment => segment.length + 1).sum + found.length)

/-- `_FQCN_IN_TEXT.findall` of what follows `prev`, the next `skip` characters of it matched. -/
def findFqcns : (prev : Option Char) → (skip : ℕ) → Text → List Text
  | _, _, [] => []
  | _, skip + 1, c :: s => findFqcns (some c) skip s
  | prev, 0, c :: s =>
    match if prev.any (Text.isWord alnum) then none
      else fqcnHere alnum ((c :: s).takeWhile (inName alnum)) with
    | some found => found :: findFqcns (some c) (found.length - 1) s
    | none => findFqcns (some c) 0 s

def fqcnsIn (s : Text) : List Text := findFqcns alnum none 0 s

end

/-- `_simple_name`. -/
def simpleName (fqcn : Text) : Text := Text.afterLast '.' fqcn

/-! ## The verdict -/

/-- The declared failure: its root class, its business code, and the classes of its chain. -/
structure Declared where
  root : Text
  code : Text
  chain : List Text

/-- `_explained`. -/
def Declared.explains (declared : Declared) (fqcn : Text) : Bool :=
  fqcn = declared.root || simpleName fqcn = simpleName declared.root || fqcn ∈ declared.chain

inductive MatchedOn where
  | fqcn
  | simpleName
  | businessCode
deriving DecidableEq, Repr

/-- The root class, its simple name and the business code, those that are given. -/
def Declared.needles (declared : Declared) : List (Text × MatchedOn) :=
  [(declared.root, .fqcn), (simpleName declared.root, .simpleName),
    (declared.code, .businessCode)].filter fun needle => needle.1 ≠ []

structure Details where
  matchedOn : Option MatchedOn
  frameHits : List Text
  exceptionsInLogs : List Text
  exceptionsInDeclaredChain : List Text
  exceptionsOnContextLines : List Text
  exceptionsOnWarnLines : List Text
  contextErrorLines : ℕ
  warnLinesSeen : ℕ
  matchedInContextOnly : Bool
  matchedOnWarnOnly : Bool
deriving DecidableEq

structure Corroboration where
  verdict : Verdict
  citations : List Text := []
  unexplained : List Text := []
  matchedDeclared : Bool := false
  errorLinesSeen : ℕ := 0
  couldNotLook : Bool := false
  details : Option Details := none
deriving DecidableEq

def Corroboration.isDiscrepancy (c : Corroboration) : Bool :=
  c.verdict = .contradicted || c.verdict = .partially

def skipMarkers : List Text :=
  ["No refId available".toList, "No usable timestamp".toList, "Log window too old".toList,
    "Log fetch failed".toList, "Log fetching disabled".toList]

def emptyMarkers : List Text := ["No logs found for ID:".toList]

def maxCitations : ℕ := 20

/-- `"\n".join` of the texts of some of the lines. -/
def joined (p : ScannedLine → Bool) (scanned : List ScannedLine) : Text :=
  ['\n'].intercalate ((scanned.filter p).map ScannedLine.text)

/-- `tuple(sorted(set(...)))`. -/
def sortedSet (l : List Text) : List Text := l.dedup.mergeSort (· ≤ ·)

section

variable (alnum : Char → Bool)

/-- `_unexplained_in`. -/
def unexplainedIn (declared : Declared) (s : Text) : List Text :=
  sortedSet ((fqcnsIn alnum s).filter fun fqcn => !declared.explains fqcn)

/-- The line may convict. -/
def ScannedLine.accuses (line : ScannedLine) : Bool := line.attributed && line.errorLevel

/-- The first of the needles that stands on a line, and the first line it stands on. -/
def matchedLine (declared : Declared) (scanned : List ScannedLine) :
    Option (MatchedOn × ScannedLine) :=
  declared.needles.findSome? fun needle =>
    (scanned.find? fun line => Text.has needle.1 line.text).map (needle.2, ·)

/-- The declared root stands on some of the lines. -/
def matchesAny (declared : Declared) (p : ScannedLine → Bool) (scanned : List ScannedLine) : Bool :=
  declared.needles.any fun needle => Text.has needle.1 (joined p scanned)

/-- The verdict on lines that were scanned. -/
def judge (declared : Declared) (frames : List Text) (scanned : List ScannedLine) :
    Corroboration :=
  let errorLines := (scanned.filter (·.errorLevel)).map ScannedLine.text
  let accusable := joined ScannedLine.accuses scanned
  let unexplained := unexplainedIn alnum declared accusable
  let onContext := (unexplainedIn alnum declared (joined (!·.attributed) scanned)).filter
    (· ∉ unexplained)
  let onWarn := (unexplainedIn alnum declared
    (joined (fun line => line.attributed && !line.errorLevel) scanned)).filter (· ∉ unexplained)
  let found := matchedLine declared scanned
  let cited := (found.map fun x => x.2.text).toList ++ errorLines
  let seen := sortedSet (fqcnsIn alnum accusable)
  let details : Details :=
    { matchedOn := found.map Prod.fst
      frameHits := frames.filter fun frame =>
        Text.afterLast '.' frame ≠ [] &&
          Text.has (Text.afterLast '.' frame) (joined (fun _ => true) scanned)
      exceptionsInLogs := seen
      exceptionsInDeclaredChain := seen.filter fun fqcn =>
        fqcn ∈ declared.chain && fqcn ≠ declared.root
      exceptionsOnContextLines := onContext
      exceptionsOnWarnLines := onWarn
      contextErrorLines := scanned.countP (!·.attributed)
      warnLinesSeen := scanned.countP (!·.errorLevel)
      matchedInContextOnly := found.isSome && !matchesAny declared (·.attributed) scanned
      matchedOnWarnOnly := found.isSome && !matchesAny declared (·.errorLevel) scanned }
  { verdict :=
      if found.isSome then if unexplained = [] then .corroborated else .partially
      else if unexplained = [] then .unverifiable else .contradicted
    citations := cited.eraseDups.take maxCitations
    unexplained := unexplained
    matchedDeclared := found.isSome
    errorLinesSeen := errorLines.length
    details := some details }

/-- `corroborate`. -/
def corroborate (logs : Text) (declared : Declared) (frames : List Text) : Corroboration :=
  if Text.strip logs = [] then { verdict := .unverifiable, couldNotLook := true }
  else if skipMarkers.any (Text.has · logs) then { verdict := .unverifiable, couldNotLook := true }
  else if emptyMarkers.any (Text.has · logs) then { verdict := .unverifiable }
  else
    let scanned := scanLines alnum true (Text.splitlines logs)
    if scanned = [] then { verdict := .unverifiable } else judge alnum declared frames scanned

end

end Corroborate

end Dlt

end ResidentCrm
