import ResidentCrm.Dlt.CaseIdentity
import ResidentCrm.Messages.DltMessage
import ResidentCrm.Messages.RefIds

/-!
# From records to requests, and back onto a queue

The adapters of `utils/message_adapters.py`, and what the two fetch routes put on the analysis
queues. A record's value is the text of its bytes, undecodable ones replaced; JSON with one half of a
surrogate pair in it, with an integer of more than 4300 digits or nested too deep for the
interpreter's stack is left out. What the routes do besides (logs, claims, statuses) is not part of
this module.
-/

namespace ResidentCrm.Messages

open Dlt.Identity (Digest deriveCaseId)
open Dlt.GroupStore (storageKey)

/-- A Kafka record. -/
structure Record where
  value : Option Text
  key : Option Text
  headers : List (Text × Option Text)
  topic : Text
  partition : ℕ
  offset : ℕ
  partition_lt : partition < 2 ^ 31
  offset_lt : offset < 2 ^ 63

/-- What the adapters are given besides a record. -/
structure Settings where
  pydantic : Pydantic
  refIds : RefIdConfig
  digest : Text → Digest

/-! ## Headers -/

/-- `decode_kafka_headers` -/
def decodeKafkaHeaders (headers : List (Text × Option Text)) : List (Text × Option Text) :=
  dictOf headers

/-- `_as_int` -/
def asInt (value : Option Text) : Option ℤ := value.bind readInt

/-- `_as_str` -/
def asStr (value : Option Text) : Option Text := (value.map Text.strip).filter (· ≠ [])

/-- The headers that the adapter reads. -/
structure DltHeaders where
  originalTopic : Option Text
  originalPartition : Option ℤ
  originalOffset : Option ℤ
  consumerGroup : Option Text
  typeId : Option Text

def parseHeaders (raw : List (Text × Option Text)) : DltHeaders where
  originalTopic := asStr (raw.lookup "kafka_original-topic".toList).join
  originalPartition := asInt (raw.lookup "kafka_original-partition".toList).join
  originalOffset := asInt (raw.lookup "kafka_original-offset".toList).join
  consumerGroup := asStr (raw.lookup "kafka_dlt-original-consumer-group".toList).join
  typeId := asStr (raw.lookup "__TypeId__".toList).join

section

variable (settings : Settings)

/-! ## Dead letters -/

/-- The id of the original record, else of the record itself. -/
def caseIdOf (r : Record) : Option Text :=
  let headers := parseHeaders (decodeKafkaHeaders r.headers)
  (deriveCaseId settings.digest headers.originalTopic headers.originalPartition
    headers.originalOffset headers.consumerGroup).or
      (deriveCaseId settings.digest (some r.topic) (some r.partition) (some r.offset) none)

/-- The payload, or null where there is none. -/
def payloadOf (r : Record) : Json := (r.value.bind loads).getD (.scalar .null)

/-- Where the refId of a record is looked for. -/
def extractionOf (r : Record) : Option RefIdExtraction :=
  resolveRefId settings.refIds settings.pydantic (toMessagePayload (payloadOf r)) (decodeKey r.key)
    (parseHeaders (decodeKafkaHeaders r.headers)).typeId

/-- The message of a record that was not republished. -/
def messageOf (r : Record) (extraction : RefIdExtraction) (caseId : Text)
    (h : isEventId caseId = true) : DltMessage :=
  let payload := toMessagePayload (payloadOf r)
  { caseId := caseId
    headers := decodeKafkaHeaders r.headers
    payload := payload
    payloadRaw := if payload.isNull then r.value else none
    recordKey := decodeKey r.key
    refId := extraction.refId
    refIdSource := extraction.source
    payloadRefId := extraction.payloadRefId
    refIdMismatch := extraction.mismatch
    eventId := (rejectionContract settings.pydantic payload).map (·.eventId)
    extra := ⟨[], fun _ hitem => absurd hitem List.not_mem_nil⟩
    isEventId_caseId := h }

/-- The payload is a message of this system: the fetch stage republished it. -/
def isRepublished (payload : Json) : Bool :=
  payload.hasKey "case_id".toList && payload.hasKey "headers".toList

/-- `DltAdapter.parse`; a record that is poison is given back as its text, and none where it
raises. -/
def parseDlt (r : Record) : Option (Except Text DltMessage) :=
  if isRepublished (payloadOf r) then
    match DltMessage.validate settings.pydantic (payloadOf r) with
    | some m => some (.ok m)
    | none => some (.error (r.value.getD []))
  else
    match caseIdOf settings r with
    | none => some (.error (r.value.getD []))
    | some caseId =>
      (extractionOf settings r).map fun extraction =>
        if h : isEventId caseId = true then .ok (messageOf settings r extraction caseId h)
        else .error (r.value.getD [])

/-- `identity_of`: the key of a dead letter's case. -/
def dltIdentityOf (m : DltMessage) : Text :=
  storageKey (fun t => (settings.digest t).text) m.refId m.caseId

/-- The body of a post by `requests`, which raises where a number of it is not finite. -/
def posted (style : Style) (body : Json) : Option Text :=
  if body.isFinite then some (style.value body) else none

/-- `fetch_dlt_logs`: what it puts on the queue, of the body it was sent. -/
def fetchDltLogs (body : Text) (gaps : List Text) (window : Option Text) (versions : List Text) :
    Option Text := do
  let m ← (loads body).bind (DltMessage.validate settings.pydantic)
  return Style.ascii.value (m.queued gaps window versions)

/-! ## Rejections -/

/-- `RejectionAdapter.parse`, which raises where a record has no value. -/
def parseRejection (r : Record) : Option (Except Text Json) :=
  r.value.map fun raw =>
    match (loads raw).map (toMessagePayload) with
    | none => .error raw
    | some body =>
      if (MessagePayload.validate settings.pydantic body).isSome then .ok body
      else .error raw

/-- `identity_of`: the event's id. -/
def rejectionIdentityOf (body : Json) : Option Text := (body.item "eventId".toList).string

/-- What `should_skip` reads of a body. -/
def statusOf (body : Json) : Json :=
  (body.item "packetExecutionSummary".toList).item "packetStatus".toList

/-- `fetch_logs`: what it puts on the queue, of the body it was sent. -/
def fetchLogs (body : Text) : Option Text := do
  let m ← (loads body).bind (MessagePayload.validate settings.pydantic)
  return Style.ascii.value m.dump

end

end ResidentCrm.Messages
