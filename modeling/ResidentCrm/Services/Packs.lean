import ResidentCrm.Lib.Json
import Mathlib.Data.List.AList
import Mathlib.Data.List.Dedup
import Mathlib.Data.List.Sort

/-!
# Service packs

`utils/service_registry.py`: the packs of a directory, each parsed from its `service.json`, and the
checks across them. A pack with an error is left out, and every error is kept with the registry.

A compiled regular expression is the set of texts it matches in full. What the sections that place
no packet report (the enrolment types, the rule source, the logs, the tools and the prompt texts) is
given with the entry of the directory.
-/

namespace ResidentCrm

namespace Services

/-- `DEFAULT_PACK`. -/
def defaultPack : Text := "_default".toList

/-- What a compiled pattern matches in full. -/
abbrev Pattern := Text → Bool

structure ServicePack where
  name : Text
  toolPrefix : Option Text
  /-- Lower-cased, so matching is case-insensitive. -/
  stages : List Text
  subStages : List Text
  sourceTopics : List Pattern
  reasonCodeDocsFile : Text
  /-- The `logs.also_search` of the document. -/
  alsoSearch : List Text
  consumerGroups : List Text
  originalTopics : List Pattern
  javaPackages : List Text

/-- The errors a registry reports, with what their texts are made of. -/
inductive PackError
  /-- `{label}` has no `service.json`, or one that is not readable as JSON. -/
  | unreadable (dir : Text)
  | notAnObject (label : Text)
  | unknownKeys (label : Text) (keys : List Text)
  | missingKeys (label : Text) (keys : List Text)
  | schemaVersion (label : Text)
  | otherName (label : Text)
  | badName (label : Text)
  | reservedName (label : Text)
  | displayName (label : Text)
  | toolPrefix (label : Text)
  | notStrings (label : Text)
  | subStagesAlone (label : Text)
  | badPattern (label pattern : Text)
  | badPackage (label package : Text)
  | badDocsFile (label : Text)
  /-- The default pack must match nothing. -/
  | defaultMatches (label : Text)
  /-- Reported by a section that places no packet. -/
  | section (label text : Text)
  -- across packs
  | noDefaultPack
  | stageForAll (first second stage : Text)
  | sharedSubStages (first second stage : Text) (shared : List Text)
  | shared (kind : Text) (names : List Text) (value : Text)
  | alsoSearch (name other : Text)
  deriving DecidableEq

/-! ## Names -/

/-- `$` matches at the end, and before a line feed that ends the text. -/
def atEnd (s : Text) : Text := if s.getLast? = some '\n' then s.dropLast else s

def isLower (c : Char) : Bool := 'a' ≤ c && c ≤ 'z'

/-- A digit of ASCII. -/
def isDigit (c : Char) : Bool := '0' ≤ c && c ≤ '9'

/-- `_SERVICE_NAME`. -/
def isServiceName (s : Text) : Bool :=
  match atEnd s with
  | c :: rest => isLower c && rest.length ≤ 63 &&
      rest.all fun d => isLower d || isDigit d || d = '-'
  | [] => false

/-- `_TOOL_PREFIX`. -/
def isToolPrefix (s : Text) : Bool :=
  match atEnd s with
  | c :: rest => isLower c && 1 ≤ rest.length && rest.length ≤ 11 &&
      rest.all fun d => isLower d || isDigit d
  | [] => false

def isIdentifier : Text → Bool
  | c :: rest => (c.isAlpha || c = '_') && rest.all fun d => d.isAlphanum || d = '_'
  | [] => false

/-- `_JAVA_PACKAGE`. -/
def isJavaPackage (s : Text) : Bool := ((atEnd s).splitOn '.').all isIdentifier

/-- `service_slug` of a name is `DEFAULT_SLUG`. -/
def hasDefaultSlug (name : Text) : Bool := name = "default".toList

/-! ## Parsing one `service.json` -/

section

-- `re.compile` and `str.lower`
variable (compile : Text → Option Pattern) (lower : Text → Text)

/-- `_check_keys`: whether the value is an object, and the errors. -/
def checkKeys (label : Text) (value : Json) (allowed : List Text) : Bool × List PackError :=
  match value with
  | .object items =>
    let unknown := (items.map Prod.fst).filter (· ∉ allowed)
    (true, if unknown = [] then [] else [.unknownKeys label unknown])
  | _ => (false, [.notAnObject label])

def allStrings : List Json → Option (List Text)
  | [] => some []
  | j :: l => do
    let s ← j.string
    if s.strip = [] then none else (s.strip :: ·) <$> allStrings l

/-- `_string_list`. -/
def stringList (label : Text) (value : Json) : List Text × List PackError :=
  if value.isNull then ([], [])
  else match value with
    | .array l => (allStrings l).elim ([], [.notStrings label]) (·, [])
    | _ => ([], [.notStrings label])

/-- The patterns of a list that compile, and an error for each of the others. -/
def patterns (label : Text) (texts : List Text) : List Pattern × List PackError :=
  (texts.filterMap compile,
    (texts.filter fun t => (compile t).isNone).map (.badPattern label))

def under (label : Text) (path : String) : Text := label ++ ' ' :: path.toList

def keys (l : List String) : List Text := l.map String.toList

structure Match where
  stages : List Text := []
  subStages : List Text := []
  sourceTopics : List Pattern := []

/-- `_parse_match`. -/
def parseMatch (label : Text) (value : Json) : Match × List PackError :=
  let (ok, e₀) := checkKeys (under label "match") value
    (keys ["stages", "sub_stages", "source_topics"])
  if ok then
    let (stages, e₁) := stringList (under label "match.stages") (value.item "stages".toList)
    let (subStages, e₂) :=
      stringList (under label "match.sub_stages") (value.item "sub_stages".toList)
    let e₃ := if subStages ≠ [] ∧ stages = [] then [.subStagesAlone label] else []
    let (texts, e₄) :=
      stringList (under label "match.source_topics") (value.item "source_topics".toList)
    let (topics, e₅) := patterns compile (under label "match.source_topics") texts
    (⟨stages, subStages, topics⟩, e₀ ++ e₁ ++ e₂ ++ e₃ ++ e₄ ++ e₅)
  else ({}, e₀)

structure Dlt where
  consumerGroups : List Text := []
  originalTopics : List Pattern := []
  javaPackages : List Text := []

/-- `_parse_dlt`. -/
def parseDlt (label : Text) (value : Json) : Dlt × List PackError :=
  if value.isNull then ({}, [])
  else
    let (ok, e₀) := checkKeys (under label "dlt") value
      (keys ["consumer_groups", "original_topics", "java_packages"])
    if ok then
      let (groups, e₁) :=
        stringList (under label "dlt.consumer_groups") (value.item "consumer_groups".toList)
      let (texts, e₂) :=
        stringList (under label "dlt.original_topics") (value.item "original_topics".toList)
      let (topics, e₃) := patterns compile (under label "dlt.original_topics") texts
      let (packages, e₄) :=
        stringList (under label "dlt.java_packages") (value.item "java_packages".toList)
      let e₅ := (packages.filter fun p => !isJavaPackage p).map
        (.badPackage (under label "dlt.java_packages"))
      (⟨groups, topics, packages.filter isJavaPackage⟩, e₀ ++ e₁ ++ e₂ ++ e₃ ++ e₄ ++ e₅)
    else ({}, e₀)

/-- An entry of the directory: its `service.json` as JSON, where it is there and readable, and what
the sections that place no packet report. -/
structure Entry where
  name : Text
  document : Option Json
  sections : List PackError := []

def fileKeys : List Text :=
  keys ["schema_version", "service", "display_name", "tool_prefix", "match", "enrolment_types",
    "rule_source", "reason_code_docs_file", "droa_corpus_dir", "logs", "tools", "dlt"]

def requiredKeys : List Text :=
  keys ["schema_version", "service", "display_name", "match", "rule_source"]

/-- `value == 1`. -/
def isOne : Json → Bool
  | .scalar (.bool b) => b
  | .scalar (.number n) => n.repr ∈ keys ["1", "1.0"]
  | _ => false

def errorIf (p : Prop) [Decidable p] (e : PackError) : List PackError := if p then [e] else []

/-- The name, the display name and the prefix of the tools of a pack. -/
def nameErrors (label name : Text) (document : Json) : List PackError :=
  let isDefault := name = defaultPack
  let displayName := (document.item "display_name".toList).string.getD []
  let toolPrefix := document.item "tool_prefix".toList
  errorIf (¬ isDefault ∧ isServiceName name = false) (.badName label) ++
    errorIf (¬ isDefault ∧ isServiceName name ∧ hasDefaultSlug name) (.reservedName label) ++
    errorIf (displayName.strip = []) (.displayName label) ++
    errorIf (if isDefault then toolPrefix.isNull = false
      else toolPrefix.string.all isToolPrefix = false ∨ toolPrefix.string = none)
      (.toolPrefix label)

/-- `reason_code_docs_file`, the name of the pack where none is given. -/
def docsFile (label name : Text) (value : Json) : Text × List PackError :=
  if value.isNull then (name, [])
  else match value.string.filter isServiceName with
    | some file => (file, [])
    | none => (name, [.badDocsFile label])

/-- The `also_search` of the logs section. -/
def alsoSearch (document : Json) : List Text :=
  match (document.item "logs".toList).item "also_search".toList with
  | .array l => l.filterMap Json.string
  | _ => []

/-- `_parse_pack`. -/
def parsePack (entry : Entry) (label : Text) (document : Json) :
    Option ServicePack × List PackError :=
  let (ok, e₀) := checkKeys label document fileKeys
  if !ok then (none, e₀)
  else
    let missing := requiredKeys.filter fun key => !document.hasKey key
    let e₁ := errorIf (isOne (document.item "schema_version".toList) = false) (.schemaVersion label)
    let name := entry.name
    if missing ≠ [] then (none, e₀ ++ [.missingKeys label missing])
    else if (document.item "service".toList).string ≠ some name then
      (none, e₀ ++ e₁ ++ [.otherName label])
    else
      let isDefault := name = defaultPack
      let e₂ := nameErrors label name document
      let (m, e₃) := parseMatch compile label (document.item "match".toList)
      let e₄ := errorIf (isDefault ∧ (m.stages ≠ [] ∨ m.subStages ≠ [] ∨ 0 < m.sourceTopics.length))
        (.defaultMatches label)
      let (d, e₅) := parseDlt compile label (document.item "dlt".toList)
      let e₆ := errorIf (isDefault ∧
        (d.consumerGroups ≠ [] ∨ 0 < d.originalTopics.length ∨ d.javaPackages ≠ []))
        (.defaultMatches label)
      let (docs, e₇) := docsFile label name (document.item "reason_code_docs_file".toList)
      (some {
        name := name
        toolPrefix := if isDefault then none else (document.item "tool_prefix".toList).string
        stages := m.stages.map lower
        subStages := m.subStages.map lower
        sourceTopics := m.sourceTopics
        reasonCodeDocsFile := docs
        alsoSearch := alsoSearch document
        consumerGroups := d.consumerGroups
        originalTopics := d.originalTopics
        javaPackages := d.javaPackages },
      e₀ ++ e₁ ++ e₂ ++ e₃ ++ e₄ ++ e₅ ++ e₆ ++ e₇)

end

/-! ## The registry -/

/-- The packs by name, `_default` included; those with errors are absent. -/
structure Registry where
  packs : AList fun _ : Text => ServicePack
  errors : List PackError

namespace Registry

/-- `services`, sorted. -/
def services (r : Registry) : List Text :=
  (r.packs.keys.filter (· ≠ defaultPack)).insertionSort (· ≤ ·)

/-- The packs of the services, in their order. -/
def servicePacks (packs : AList fun _ : Text => ServicePack) (services : List Text) :
    List (Text × ServicePack) :=
  services.filterMap fun name => (packs.lookup name).map (name, ·)

end Registry

/-! ## Checks across packs -/

/-- The stages two services share without telling their sub-stages apart. -/
def sharedStages (first second : Text × ServicePack) : List PackError :=
  let (a, b) := (first.2, second.2)
  ((a.stages.filter (· ∈ b.stages)).dedup.insertionSort (· ≤ ·)).flatMap fun stage =>
    if a.subStages = [] ∨ b.subStages = [] then [.stageForAll first.1 second.1 stage]
    else
      let shared := (a.subStages.filter (· ∈ b.subStages)).dedup.insertionSort (· ≤ ·)
      errorIf (shared ≠ []) (.sharedSubStages first.1 second.1 stage shared)

/-- Every two services, the first of them before the second. -/
def stageErrors : List (Text × ServicePack) → List PackError
  | [] => []
  | first :: rest => rest.flatMap (sharedStages first) ++ stageErrors rest

/-- The names of the services that give `value`, once for each time they give it. -/
def owners (values : ServicePack → List Text) (packs : List (Text × ServicePack)) (value : Text) :
    List Text :=
  packs.flatMap fun p => List.replicate ((values p.2).count value) p.1

/-- The values that are not given once. -/
def sharedErrors (kind : String) (values : ServicePack → List Text)
    (packs : List (Text × ServicePack)) : List PackError :=
  ((packs.flatMap fun p => values p.2).dedup.insertionSort (· ≤ ·)).flatMap fun value =>
    errorIf (1 < (owners values packs value).length)
      (.shared kind.toList (owners values packs value) value)

def alsoSearchErrors (services : List Text) (p : Text × ServicePack) : List PackError :=
  (p.2.alsoSearch.filter fun other => other = p.1 ∨ other ∉ services).map (.alsoSearch p.1)

/-- `_check_registry`. -/
def checkRegistry (packs : AList fun _ : Text => ServicePack) : List PackError :=
  let services := (Registry.mk packs []).services
  let all := Registry.servicePacks packs services
  errorIf (packs.lookup defaultPack).isNone .noDefaultPack ++ stageErrors all ++
    sharedErrors "tool prefix" (·.toolPrefix.toList) all ++
    sharedErrors "reason-code documentation file" (fun p => [p.reasonCodeDocsFile]) all ++
    sharedErrors "DLT consumer group" (·.consumerGroups) all ++
    sharedErrors "Java package" (·.javaPackages) all ++
    all.flatMap (alsoSearchErrors services)

section

variable (compile : Text → Option Pattern) (lower : Text → Text)

/-- One entry of the directory: its pack, if it has no error, and its errors. -/
def addEntry (r : Registry) (entry : Entry) : Registry :=
  let label := entry.name ++ "/service.json".toList
  match entry.document with
  | none => { r with errors := r.errors ++ [.unreadable entry.name] }
  | some document =>
    let (pack, found) := parsePack compile lower entry label document
    let found := found ++ entry.sections
    { packs := match pack with
        | some p => if found = [] then r.packs.insert p.name p else r.packs
        | none => r.packs
      errors := r.errors ++ found }

/-- `_build`: the entries of the directory, in the order of their names. -/
def build (entries : List Entry) : Registry :=
  let r := entries.foldl (addEntry compile lower) ⟨∅, []⟩
  { r with errors := r.errors ++ checkRegistry r.packs }

end

end Services

end ResidentCrm
