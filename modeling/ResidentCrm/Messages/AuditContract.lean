import ResidentCrm.Messages.Dates

/-!
# The AUDIT envelope

`models/audit_contract.py`: a payload in the AUDIT contract becomes the packet event, once, where a
record enters; every other payload is as it was.
-/

namespace ResidentCrm.Messages

def EXECUTION_ON_HOLD : Text := "ON_HOLD".toList

def STATUS_ON_HOLD : Text := "ON_HOLD".toList

def STATUS_REJECTED : Text := "REJECTED".toList

/-- `_text` -/
def text (value : Json) : Option Text := (value.string.map Text.strip).filter (· ≠ [])

/-- `_flag` -/
def flag : Json → Option Bool
  | .scalar (.bool b) => some b
  | value =>
    match (text value).map Text.lower with
    | some t => if t = "true".toList then some true else if t = "false".toList then some false
      else none
    | none => none

def isAuditEnvelope (payload : Json) : Bool :=
  (payload.item "edata".toList).isObject && !payload.hasKey "packetExecutionSummary".toList

/-- `_packet_status` -/
def packetStatus (execution : Option Text) : Text :=
  if execution.map Text.upper = some EXECUTION_ON_HOLD then STATUS_ON_HOLD else STATUS_REJECTED

/-- A flag, or null. -/
def optionalFlag (b : Option Bool) : Json := .scalar (b.elim .null .bool)

/-- A list, or null. -/
def listOrNull : Json → Json
  | .array l => .array l
  | _ => .scalar .null

/-- The packet event of an envelope. -/
def translated (payload : Json) : Json :=
  let edata := payload.item "edata".toList
  let execution := text (edata.item "executionStatus".toList)
  let validation := flag (edata.item "validationStatus".toList)
  let version := Json.optional (text (payload.item "ver".toList))
  let field (key : String) : Json := Json.optional (text (edata.item key.toList))
  let flagged (key : String) : Json := optionalFlag (flag (edata.item key.toList))
  .object [
    ("eventId".toList, field "refId"),
    ("category".toList, Json.optional (text (payload.item "messageType".toList))),
    ("eventType".toList, field "stageOutcome"),
    ("eventTimestamp".toList, Json.optional (isoUtc (payload.item "ets".toList))),
    ("eventVersion".toList, version),
    ("sid".toList, field "sid"),
    ("sidDate".toList,
      Json.optional ((text (edata.item "sid".toList)).bind sidDate)),
    ("version".toList, version),
    ("sourceTopic".toList, field "publishedTopic"),
    ("flowMetaData".toList, .object [
      ("stage".toList, field "stage"), ("subStage".toList, field "subStage")]),
    ("packetMetaData".toList, .object [
      ("refId".toList, field "refId"), ("enrolmentType".toList, field "enrolmentType"),
      ("pktSource".toList, field "pktSource"), ("isMBU".toList, flagged "isMBU"),
      ("isNRI".toList, flagged "isNRI"),
      ("isForeignResident".toList, flagged "isForeignResident")]),
    ("packetExecutionSummary".toList, .object [
      ("packetStatus".toList, .text (packetStatus execution)),
      ("errorData".toList, listOrNull (edata.item "errorData".toList)),
      ("hasExecutionErrors".toList,
        optionalFlag (execution.map fun t => decide (Text.upper t = EXECUTION_ON_HOLD))),
      ("isExecutionSuccess".toList,
        optionalFlag (execution.map fun t => decide (Text.upper t = "COMPLETED".toList))),
      ("hasValidationErrors".toList, optionalFlag (validation.map not)),
      ("isValidationSuccess".toList, optionalFlag validation)]),
    ("resubmissionSummary".toList, .object [
      ("resubmissionCount".toList, edata.item "resubmissionCount".toList),
      ("resubmissionReason".toList, field "resubmissionReason")])]

def toMessagePayload (payload : Json) : Json :=
  if isAuditEnvelope payload then translated payload else payload

variable {payload : Json}

/-- A packet event is no envelope. -/
theorem toMessagePayload_of_hasKey
    (h : payload.hasKey "packetExecutionSummary".toList = true) :
    toMessagePayload payload = payload := by
  rw [toMessagePayload, isAuditEnvelope, h, Bool.not_true, Bool.and_false]
  rfl

theorem hasKey_translated :
    (translated payload).hasKey "packetExecutionSummary".toList = true := rfl

/-- What is translated once stays as it is. -/
theorem toMessagePayload_idempotent :
    toMessagePayload (toMessagePayload payload) = toMessagePayload payload := by
  by_cases h : isAuditEnvelope payload = true
  · have htranslated : toMessagePayload payload = translated payload := if_pos h
    rw [htranslated, toMessagePayload_of_hasKey hasKey_translated]
  · have hsame : toMessagePayload payload = payload := if_neg h
    rw [hsame, hsame]

end ResidentCrm.Messages
