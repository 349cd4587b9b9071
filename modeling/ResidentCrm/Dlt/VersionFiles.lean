import ResidentCrm.Dlt.Versions
import ResidentCrm.Lib.JsonText
import ResidentCrm.Lib.Words

/-!
# Version files

The version that a pom, a properties file or a `package.json` declares: `parse_pom_version`,
`parse_properties_version` and `parse_package_version` of `dlt/bitbucket.py`. A pom's version is the
project's own, or its parent's where it has none, with the placeholders `${name}` of `<properties>`
substituted.

`ElementTree.fromstring` and the `str` of a JSON value that is no string are parameters.
-/

namespace ResidentCrm.Dlt

/-- A text, or `None` for the empty one. -/
def orNone (s : Text) : Option Text := if s = [] then none else some s

namespace Pom

/-- An element of the pom as `ElementTree` reads it: its tag, its text, if any, and its children. -/
inductive Element
  | node (tag : Text) (text : Option Text) (children : List Element)

namespace Element

def tag : Element → Text
  | node tag _ _ => tag

/-- `(element.text or "").strip()`. -/
def stripped : Element → Text
  | node _ text _ => Text.strip (text.getD [])

def children : Element → List Element
  | node _ _ children => children

/-- `_local_name(element.tag)`. -/
def localName (e : Element) : Text := Text.afterLast '}' e.tag

end Element

/-- Properties in their order; of two with one name the later counts. -/
abbrev Properties := List (Text × Text)

def Properties.get (properties : Properties) (name : Text) : Option Text :=
  properties.reverse.lookup name

/-- `_pom_properties`. -/
def pomProperties (root : Element) : Properties :=
  match root.children.find? (·.localName = "properties".toList) with
  | some element => element.children.map fun prop => (prop.localName, prop.stripped)
  | none => []

/-! ## Placeholders -/

/-- `_PLACEHOLDER_RE` at the start of a text: what its group matches. -/
def placeholderAt : Text → Option Text
  | '$' :: '{' :: s =>
    let name := s.takeWhile (· ≠ '}')
    if name ≠ [] ∧ '}' ∈ s then some name else none
  | _ => none

/-- A character of a text outside its placeholders, or the name in one. -/
inductive Token
  | char (c : Char)
  | placeholder (name : Text)

/-- The tokens of a text of which the first `skip` characters belong to a placeholder before. -/
def tokensFrom : (skip : ℕ) → Text → List Token
  | _, [] => []
  | skip + 1, _ :: s => tokensFrom skip s
  | 0, c :: s =>
    match placeholderAt (c :: s) with
    | some name => .placeholder (Text.strip name) :: tokensFrom (name.length + 2) s
    | none => .char c :: tokensFrom 0 s

def tokens (value : Text) : List Token := tokensFrom 0 value

/-- The names in the placeholders of a text. -/
def names (value : Text) : List Text :=
  (tokens value).filterMap fun
    | .placeholder name => some name
    | .char _ => none

/-- The text with the value of each property for its placeholder. -/
def expand (properties : Properties) (value : Text) : Text :=
  (tokens value).flatMap fun
    | .placeholder name => (properties.get name).getD []
    | .char c => [c]

/-- The names of a text that the pom does not define. -/
def missing (properties : Properties) (value : Text) : List Text :=
  (names value).filter fun name => (properties.get name).isNone

/-- `_resolve_placeholders`. -/
def resolvePlaceholders (value : Text) (properties : Properties) : Option Text :=
  if Text.has ['$', '{'] value then
    if missing properties value ≠ [] then none
    else orNone (Text.strip (expand properties value))
  else some value

/-- The loop over a `<parent>`'s children. -/
def parentVersion (before : Option Text) (parent : Element) : Option Text :=
  parent.children.foldl (fun version grandchild =>
    if grandchild.localName = "version".toList then orNone grandchild.stripped else version) before

/-- The loop of `parse_pom_version`. -/
def versionFrom (properties : Properties) (inherited : Option Text) : List Element → Option Text
  | [] => inherited.bind (resolvePlaceholders · properties)
  | child :: rest =>
    if child.localName = "version".toList ∧ child.stripped ≠ [] then
      resolvePlaceholders child.stripped properties
    else if child.localName = "parent".toList then
      versionFrom properties (parentVersion inherited child) rest
    else versionFrom properties inherited rest

def pomVersion (root : Element) : Option Text :=
  versionFrom (pomProperties root) none root.children

/-- `parse_pom_version`, with `ElementTree.fromstring`. -/
def parsePomVersion (fromstring : Text → Option Element) (text : Text) : Option Text :=
  if Text.strip text = [] then none else (fromstring text).bind pomVersion

end Pom

/-! ## Other files -/

/-- The loop of `parse_properties_version`. -/
def propertiesVersion : List Text → Option Text
  | [] => none
  | line :: lines =>
    let line := Text.strip line
    if line.head?.all (· ∈ ['#', '!']) then propertiesVersion lines
    else if '=' ∈ line ∧
        Text.strip (Text.before '=' line) ∈ ["version".toList, "revision".toList] then
      orNone (Text.strip ((line.dropWhile (· ≠ '=')).drop 1))
    else propertiesVersion lines

def parsePropertiesVersion (text : Text) : Option Text := propertiesVersion (Text.linesOf text)

def parsePackageVersion (str : Json → Text) (text : Text) : Option Text :=
  match loads text with
  | some (.object items) =>
    match (Json.object items).item "version".toList with
    | .scalar .null => none
    | .scalar (.string value) => orNone (Text.strip value)
    | value => orNone (Text.strip (str value))
  | _ => none

end ResidentCrm.Dlt
