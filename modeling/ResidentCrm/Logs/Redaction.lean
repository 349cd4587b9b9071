import ResidentCrm.Lib.JsonText
import ResidentCrm.Lib.Words
import Mathlib.Data.List.Sort

/-!
# Redaction

`redact_json_fields` of `log_pipeline/redaction.py`: the values of sensitive JSON keys are replaced
by placeholders.
-/

namespace ResidentCrm.Logs.Redaction

/-! ## The sensitive keys -/

def defaultJsonKeys : List Text :=
  ["name", "fullName", "firstName", "middleName", "lastName", "residentName", "localName",
    "nameLocal", "fatherName", "motherName", "spouseName", "husbandName", "guardianName",
    "parentName", "relativeName", "careOf", "dob", "dateOfBirth", "yearOfBirth", "gender",
    "address", "addressLine1", "addressLine2", "addressLine3", "house", "houseNumber", "street",
    "landmark", "locality", "vtc", "village", "subDistrict", "district", "city", "postOffice",
    "pincode", "postalCode"].map String.toList

/-- `json_keys`, by what `REDACT_JSON_KEYS` says. -/
def jsonKeys (configured : Text) : List Text :=
  let source := if Text.strip configured = [] then defaultJsonKeys
    else (Text.strip configured).splitOn ','
  ((source.filter (Text.strip · ≠ [])).map fun key => Text.lower (Text.strip key)).eraseDups

/-- The alternatives of the key pattern, the longest first. -/
def alternatives (configured : Text) : List Text :=
  (jsonKeys configured).mergeSort fun a b => b.length ≤ a.length

/-- A run of backslashes and a quote. -/
def quoteAt (level : ℕ) : Text := List.replicate level '\\' ++ ['"']

/-- What follows the prefix. -/
def afterPrefix (start s : Text) : Option Text :=
  if start.isPrefixOf s then some (s.drop start.length) else none

/-- `(?P=bs)"\s*:\s*`: what follows it. -/
def afterKey (level : ℕ) (s : Text) : Option Text := do
  let s ← afterPrefix (quoteAt level) s
  match s.dropWhile Text.isSpace with
  | ':' :: s => some (s.dropWhile Text.isSpace)
  | _ => none

section

variable (keys : List Text)

/-- The key pattern at the start of the text: the level of its quotes, and what follows it. -/
def keyAt (s : Text) : Option (ℕ × Text) :=
  let level := (s.takeWhile (· = '\\')).length
  match s.drop level with
  | '"' :: s => (keys.findSome? fun key => (Text.afterPattern key s).bind (afterKey level)).map
      (level, ·)
  | _ => none

/-! ## The end of a value -/

/-- `_ESCAPE_LEVELS` -/
def escapeLevels : List ℕ := [0, 1, 3, 7]

/-- Whether a quote after a run of backslashes opens or closes a string. -/
def delimits (level run : ℕ) : Bool := run % (2 * (level + 1)) = level

/-- `_string_end` of the text after the opening quote, the last `run` characters of which were
backslashes. -/
def stringEnd (level : ℕ) : (run : ℕ) → Text → ℕ
  | _, [] => 0
  | run, c :: s =>
    if c = '"' then if delimits level run then 1 else 1 + stringEnd level 0 s
    else 1 + stringEnd level (if c = '\\' then run + 1 else 0) s

/-- `_container_end`, within a string for the next `skip` characters. -/
def containerEnd (level : ℕ) : (skip depth run : ℕ) → Text → ℕ
  | _, _, _, [] => 0
  | skip + 1, depth, _, _ :: s => 1 + containerEnd level skip depth 0 s
  | 0, depth, run, c :: s =>
    if c = '"' ∧ delimits level run = true then
      1 + containerEnd level (stringEnd level 0 s) depth 0 s
    else if c ∈ ['{', '['] then 1 + containerEnd level 0 (depth + 1) 0 s
    else if c ∈ ['}', ']'] then if depth = 1 then 1 else 1 + containerEnd level 0 (depth - 1) 0 s
    else 1 + containerEnd level 0 depth (if c = '\\' then run + 1 else 0) s

/-- `[^,}\]\s\\"]` -/
def isScalar (c : Char) : Bool := !(c ∈ [',', '}', ']', '\\', '"'] || Text.isSpace c)

def redactedMark : Text := "[REDACTED:".toList

/-- `_value_end` of the text from the value on. -/
def valueEnd (level : ℕ) (s : Text) : Option ℕ :=
  if level ∉ escapeLevels ∨ s = [] then none
  else match afterPrefix (quoteAt level) s with
    | some content =>
      if redactedMark.isPrefixOf content then none
      else
        let length := stringEnd level 0 content
        if length = 1 + level then none else some (level + 1 + length)
    | none =>
      if s.head? = some '{' ∨ s.head? = some '[' then some (containerEnd level 0 0 0 s)
      else
        let scalar := s.takeWhile isScalar
        if scalar = [] ∨ Text.lower scalar ∈ ["null".toList, "true".toList, "false".toList] then
          none
        else some scalar.length

/-! ## The fields of a text -/

def jsonFieldLabel : Text := "JSON_FIELD".toList

def placeholder (label : Text) : Text := redactedMark ++ label ++ [']']

/-- The placeholder of a value, quoted as its key is. -/
def quotedPlaceholder (level : ℕ) : Text :=
  quoteAt level ++ placeholder jsonFieldLabel ++ quoteAt level

/-- The loop of `redact_json_fields`, of as many rounds as the text has characters. -/
def redactFields : (rounds : ℕ) → Text → Text × ℕ
  | 0, s => (s, 0)
  | _ + 1, [] => ([], 0)
  | rounds + 1, c :: s =>
    match keyAt keys (c :: s) with
    | none =>
      let (t, hits) := redactFields rounds s
      (c :: t, hits)
    | some (level, value) =>
      let key := (c :: s).take ((c :: s).length - value.length)
      match valueEnd level value with
      | none =>
        let (t, hits) := redactFields rounds value
        (key ++ t, hits)
      | some n =>
        let (t, hits) := redactFields rounds (value.drop n)
        (key ++ quotedPlaceholder level ++ t, hits + 1)

def redactJsonFields (s : Text) : Text × ℕ := redactFields keys s.length s

end

/-! ## The keys -/

/-- A spelling of a key, in any case. -/
def isSpelled (keys : List Text) (key : Text) : Bool :=
  keys.any fun k => Text.afterPattern k key = some []

/-- Keys of letters and digits, in lower case. -/
def PlainKeys (keys : List Text) : Prop :=
  ∀ key ∈ keys, key ≠ [] ∧ ∀ c ∈ key, (c.isLower || c.isDigit) = true

theorem mem_alternatives {configured key : Text} :
    key ∈ alternatives configured ↔ key ∈ jsonKeys configured := List.mem_mergeSort

theorem plainKeys_default : PlainKeys (alternatives []) := by
  have hsource : (defaultJsonKeys.all fun key =>
      let key := Text.lower (Text.strip key)
      !key.isEmpty && key.all fun c => c.isLower || c.isDigit) = true := by decide +kernel
  intro key hkey
  have hmem := mem_alternatives.1 hkey
  rw [jsonKeys, List.mem_eraseDups] at hmem
  obtain ⟨source, hfilter, rfl⟩ := List.mem_map.1 hmem
  have hplain := List.all_eq_true.1 hsource source (List.mem_filter.1 hfilter).1
  rw [Bool.and_eq_true, Bool.not_eq_true', List.isEmpty_eq_false_iff, List.all_eq_true] at hplain
  exact hplain

end ResidentCrm.Logs.Redaction
