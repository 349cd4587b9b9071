import ResidentCrm.Lib.Floats
import ResidentCrm.Lib.JsonDict

/-!
# The synthesis contract

`models/synthesis.py`, and what the nodes of `core/agent_orchestrator.py` store as a synthesis: the
result of the agent after `apply_confidence_policy`, or the dict of an escalation. `parse_synthesis`
reads either back from its text.

What pydantic makes of a scalar and how a float is written are parameters.
-/

namespace ResidentCrm.Synthesis

/-! ## The result -/

/-- `ACTIONS` -/
inductive Action where
  | replay
  | whitelisting
  | qcReplay
  | roApproval
  | residentPacketResubmit
  | manualReview
deriving DecidableEq

def Action.all : List Action :=
  [.replay, .whitelisting, .qcReplay, .roApproval, .residentPacketResubmit, .manualReview]

def Action.text : Action → Text
  | .replay => "REPLAY".toList
  | .whitelisting => "WHITELISTING".toList
  | .qcReplay => "QC_REPLAY".toList
  | .roApproval => "RO_APPROVAL".toList
  | .residentPacketResubmit => "RESIDENT_PACKET_RESUBMIT".toList
  | .manualReview => "MANUAL_REVIEW".toList

/-- `RESIDENT_ACTIONS` -/
inductive ResidentAction where
  | newPacket
  | newPacketWithDifferentArtifacts
  | roApplication
  | pending
deriving DecidableEq

def ResidentAction.all : List ResidentAction :=
  [.newPacket, .newPacketWithDifferentArtifacts, .roApplication, .pending]

def ResidentAction.text : ResidentAction → Text
  | .newPacket => "NEW_PACKET".toList
  | .newPacketWithDifferentArtifacts => "NEW_PACKET_WITH_DIFFERENT_ARTIFACTS".toList
  | .roApplication => "RO_APPLICATION".toList
  | .pending => "PENDING".toList

/-- Floats that are numbers, how they are written, and what pydantic makes of a scalar for a field
that is a float or a bool. -/
structure Coercion (R : Type) [LinearOrder R] where
  zero : R
  one : R
  /-- `float.__repr__`; an infinity is written as null. -/
  write : R → Option Number
  float : Scalar → Option R
  bool : Scalar → Option Bool
  isNumberText_write : ∀ x, ∀ n ∈ write x, isNumberText n.repr = true
  float_write : ∀ x, ∀ n ∈ write x, float (.number n) = some x
  finite : ∀ x, zero ≤ x → x ≤ one → (write x).isSome = true
  bool_bool : ∀ b, bool (.bool b) = some b

/-- A result whose confidence, where it has one, is of `C`. -/
structure SynthesisResult (C : Type) where
  rejectionDescription : Text
  synthesis : Text
  action : Action
  residentAction : ResidentAction
  confidence : Option C
  abstained : Bool

variable {R : Type} [LinearOrder R] (p : Coercion R)

/-- `ge=0.0, le=1.0` -/
abbrev Coercion.Unit := {x : R // p.zero ≤ x ∧ x ≤ p.one}

/-- A valid result, without what its confidence is known to be. -/
def SynthesisResult.raw (r : SynthesisResult p.Unit) : SynthesisResult R where
  rejectionDescription := r.rejectionDescription
  synthesis := r.synthesis
  action := r.action
  residentAction := r.residentAction
  confidence := r.confidence.map Subtype.val
  abstained := r.abstained

/-! ## Writing -/

def confidenceScalar (confidence : Option R) : Scalar :=
  ((confidence.bind p.write).map Scalar.number).getD .null

def items (r : SynthesisResult R) : List (Text × Scalar) :=
  [("rejection_description".toList, .string r.rejectionDescription),
    ("synthesis".toList, .string r.synthesis),
    ("action".toList, .string r.action.text),
    ("resident_action".toList, .string r.residentAction.text),
    ("confidence".toList, confidenceScalar p r.confidence),
    ("abstained".toList, .bool r.abstained)]

/-- `model_dump_json` -/
def modelDumpJson (r : SynthesisResult R) : Text := Style.compact.dict (items p r)

/-- What an escalation says. -/
structure Escalation where
  rejectionDescription : Text
  synthesis : Text

def Escalation.items (e : Escalation) : List (Text × Scalar) :=
  [("rejection_description".toList, .string e.rejectionDescription),
    ("synthesis".toList, .string e.synthesis),
    ("action".toList, .string "MANUAL_REVIEW".toList),
    ("resident_action".toList, .string "PENDING".toList)]

/-- `json.dumps` of an escalation. -/
def Escalation.dumps (e : Escalation) : Text := Style.ascii.dict e.items

/-- The result an escalation stands for. -/
def Escalation.result {C : Type} (e : Escalation) : SynthesisResult C where
  rejectionDescription := e.rejectionDescription
  synthesis := e.synthesis
  action := .manualReview
  residentAction := .pending
  confidence := none
  abstained := false

/-- `escalation_result` of `escalate_node`. -/
def escalationResult (investigation feedback : Text) : Escalation where
  rejectionDescription :=
    "ESCALATED: The automated agents could not agree on a resolution after ".toList ++
    "multiple attempts.\nLast Investigation:\n".toList ++ investigation ++
    "\n\nLast Reviewer Feedback:\n".toList ++ feedback
  synthesis :=
    "ESCALATED TO HUMAN REVIEW. The system encountered a complex edge case and ".toList ++
    "exceeded the maximum allowed retries for agentic resolution.".toList

/-- What `synthesis_node` stores after two replies that fail the contract. -/
def unrepairable (error : Text) : Escalation where
  rejectionDescription :=
    "ESCALATED: the Synthesis agent did not produce a valid resolution after a repair ".toList ++
    "attempt. Last error: ".toList ++ error
  synthesis := "ESCALATED TO HUMAN REVIEW (invalid agent output).".toList

/-! ## Reading -/

def fence : Text := "```".toList

/-- `\s*` and a fence. -/
def startsFence (s : Text) : Bool := fence.isPrefixOf (s.dropWhile Text.isSpace)

/-- `.*?[\}\]]`, up to the first closing bracket before a fence. -/
def closing : Text → Option Text
  | [] => none
  | c :: s =>
    if (c = '}' ∨ c = ']') ∧ startsFence s = true then some [c] else (closing s).map (c :: ·)

/-- The group of `(?:json)?\s*([\{\[].*?[\}\]])\s*` and a fence, after a fence. -/
def group (s : Text) : Option Text :=
  let label := "json".toList
  match (if label.isPrefixOf s then s.drop label.length else s).dropWhile Text.isSpace with
  | [] => none
  | c :: s => if c = '{' ∨ c = '[' then (closing s).map (c :: ·) else none

/-- The group of the first fenced block. -/
def fenced (s : Text) : Option Text :=
  s.tails.findSome? fun t => if fence.isPrefixOf t then group (t.drop fence.length) else none

/-- `(\{.*\})` -/
def braced (s : Text) : Option Text :=
  match (s.dropWhile (· ≠ '{')).rdropWhile (· ≠ '}') with
  | [] => none
  | block => some block

def extractJsonBlock (text : Text) : Option Text :=
  if text = [] then none
  else match fenced text with
    | some block => some block
    | none => match braced text with
      | some block => some block
      | none =>
        let stripped := Text.strip text
        if stripped.head? = some '{' ∨ stripped.head? = some '[' then some stripped else none

/-- Why a response is refused; `invalid` names the fields that fail. -/
inductive Refusal where
  | noObject
  | notJson
  | notDict
  | invalid (fields : List Text)

section

variable (fields : List (Text × Json))

/-- A field of type `str` with the default `""`. -/
def strField (key : Text) : Option Text :=
  match fields.lookup key with
  | none => some []
  | some v => v.string

/-- A field of a `Literal`. -/
def literalField {α : Type} (all : List α) (text : α → Text) (key : Text) : Option α := do
  let v ← fields.lookup key
  let s ← v.string
  all.find? fun a => text a = s

def confidenceField : Option (Option p.Unit) :=
  match fields.lookup "confidence".toList with
  | none | some (.scalar .null) => some none
  | some (.scalar v) => do
    let x ← p.float v
    if h : p.zero ≤ x ∧ x ≤ p.one then some (some ⟨x, h⟩) else none
  | some _ => none

def abstainedField : Option Bool :=
  match fields.lookup "abstained".toList with
  | none => some false
  | some (.scalar v) => p.bool v
  | some _ => none

/-- `SynthesisResult(**payload)` -/
def validate : Except Refusal (SynthesisResult p.Unit) :=
  match strField fields "rejection_description".toList, strField fields "synthesis".toList,
    literalField fields Action.all Action.text "action".toList,
    literalField fields ResidentAction.all ResidentAction.text "resident_action".toList,
    confidenceField p fields, abstainedField p fields with
  | some rejectionDescription, some synthesis, some action, some residentAction, some confidence,
    some abstained =>
    .ok { rejectionDescription, synthesis, action, residentAction, confidence, abstained }
  | rejectionDescription, synthesis, action, residentAction, confidence, abstained =>
    .error (.invalid ([("rejection_description".toList, rejectionDescription.isSome),
      ("synthesis".toList, synthesis.isSome), ("action".toList, action.isSome),
      ("resident_action".toList, residentAction.isSome),
      ("confidence".toList, confidence.isSome),
      ("abstained".toList, abstained.isSome)].filterMap fun (field, ok) =>
        if ok then none else some field))

end

def parseSynthesis (text : Text) : Except Refusal (SynthesisResult p.Unit) :=
  match extractJsonBlock text with
  | none => .error .noObject
  | some block => match loads block with
    | none => .error .notJson
    | some (.object fields) => validate p fields
    | some _ => .error .notDict

/-! ## The confidence policy -/

/-- What a log slot holds. -/
inductive LogState where
  | unavailable
  | silent
  | present
deriving DecidableEq

def classifyLogs (logs : Text) : LogState :=
  let text := Text.strip logs
  if text = [] ∨ text = "Log fetching disabled.".toList then .unavailable
  else if Text.has "No logs found for ID:".toList text then .silent
  else .present

/-- The thresholds and ceilings that are configured. -/
structure Ceilings (R : Type) where
  confidenceThreshold : Num R
  gapConfidence : Num R
  logsUnavailable : Num R
  logsSilent : Num R
  unresolvedService : Num R

def bannerHeader : Text := "--- EVIDENCE GAPS (the trace below is INCOMPLETE) ---".toList

/-- `_confidence_ceilings` -/
def confidenceCeilings (config : Ceilings R) (logs : Text) (defaultPack : Bool) : List (Num R) :=
  (if defaultPack then [config.unresolvedService] else []) ++
  (if Text.has bannerHeader (Text.strip logs) then [config.gapConfidence] else []) ++
  match classifyLogs logs with
  | .unavailable => [config.logsUnavailable]
  | .silent => [config.logsSilent]
  | .present => []

/-- `min(ceilings)` -/
def leastCeiling (config : Ceilings R) (logs : Text) (defaultPack : Bool) : Num R :=
  match confidenceCeilings config logs defaultPack with
  | [] => none
  | ceiling :: ceilings => ceilings.foldl Num.least ceiling

/-- The confidence, or the ceiling where it is above that. -/
def lowered (ceiling : Num R) (confidence : R) : R :=
  match ceiling with
  | none => confidence
  | some ceiling => if ceiling < confidence then ceiling else confidence

def applyConfidencePolicy (config : Ceilings R) (result : SynthesisResult R) (logs : Text)
    (defaultPack : Bool) : SynthesisResult R :=
  let confidence := result.confidence.map (lowered (leastCeiling config logs defaultPack))
  let threshold := config.confidenceThreshold
  if Num.Lt (some p.zero) threshold ∧ Num.Lt confidence threshold then
    { result with
      confidence, abstained := true, action := .manualReview, residentAction := .pending,
      synthesis := "ESCALATED (low confidence). ".toList ++ result.synthesis }
  else { result with confidence, abstained := false }

end ResidentCrm.Synthesis
