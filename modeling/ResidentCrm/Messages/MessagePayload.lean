import ResidentCrm.Messages.AuditContract

/-!
# The packet event

`MessagePayload` of `models/schemas.py`: what a packet event has to look like, which of it is kept
(`model_validate`) and how it is written (`model_dump`). What is written is kept whole
(`validate_dump`). Where a flag is wanted pydantic takes other values than flags too, which is given
(`Pydantic`).
-/

namespace ResidentCrm.Messages

/-- `EVENT_ID_PATTERN`, in full. -/
def isEventId (id : Text) : Bool :=
  1 ≤ id.length && id.length ≤ 128 && id.all fun c => c.isAlphanum || c ∈ "_.:-".toList

/-- How a `bool` field reads a value. -/
structure Pydantic where
  bool : Json → Option Bool
  bool_eq : ∀ b, bool (.scalar (.bool b)) = some b

/-- The fields that a model which allows others does not declare. -/
@[ext] structure Extra (declared : List Text) where
  items : List (Text × Json)
  undeclared : ∀ item ∈ items, item.1 ∉ declared

def Extra.ofItems (declared : List Text) (items : List (Text × Json)) : Extra declared where
  items := items.filter (·.1 ∉ declared)
  undeclared _ hitem := of_decide_eq_true (List.mem_filter.1 hitem).2

theorem Extra.ofItems_append {declared : List Text} (fields : List (Text × Json))
    (h : ∀ field ∈ fields, field.1 ∈ declared) (extra : Extra declared) :
    Extra.ofItems declared (fields ++ extra.items) = extra := by
  apply Extra.ext
  show (fields ++ extra.items).filter (·.1 ∉ declared) = extra.items
  rw [List.filter_append]
  have hfields : fields.filter (·.1 ∉ declared) = [] := by
    rw [List.filter_eq_nil_iff]
    intro field hfield
    simpa using h field hfield
  have hextra : extra.items.filter (·.1 ∉ declared) = extra.items := by
    rw [List.filter_eq_self]
    intro item hitem
    simpa using extra.undeclared item hitem
  rw [hfields, hextra, List.nil_append]

/-- An optional field: null, or a value that is read. -/
def optional {α : Type} (read : Json → Option α) (value : Json) : Option (Option α) :=
  if value.isNull then some none else (read value).map some

theorem optional_string (s : Option Text) : optional Json.string (Json.optional s) = some s := by
  cases s <;> rfl

structure ErrorData where
  type : Option Text
  errorReasonCode : Option Text

namespace ErrorData

def validate (value : Json) : Option ErrorData :=
  if value.isObject then do
    let type ← optional Json.string (value.item "type".toList)
    let errorReasonCode ← optional Json.string (value.item "errorReasonCode".toList)
    return ⟨type, errorReasonCode⟩
  else none

def dump (e : ErrorData) : Json := .object [
  ("type".toList, Json.optional e.type),
  ("errorReasonCode".toList, Json.optional e.errorReasonCode)]

theorem validate_dump (e : ErrorData) : validate e.dump = some e := by
  have htype : e.dump.item "type".toList = Json.optional e.type := rfl
  have hcode : e.dump.item "errorReasonCode".toList = Json.optional e.errorReasonCode := rfl
  rw [validate, htype, hcode, optional_string, optional_string]
  rfl

end ErrorData

/-- A list of models. -/
def listOf {α : Type} (validate : Json → Option α) : Json → Option (List α)
  | .array l => l.mapM validate
  | _ => none

theorem mapM_map {α : Type} {validate : Json → Option α} {dump : α → Json}
    (h : ∀ a, validate (dump a) = some a) (l : List α) : (l.map dump).mapM validate = some l := by
  induction l with
  | nil => rfl
  | cons a l ih =>
    rw [List.map_cons, List.mapM_cons, h, ih]
    rfl

structure PacketExecutionSummary where
  hasExecutionErrors : Option Bool
  hasValidationErrors : Option Bool
  packetStatus : Option Text
  errorData : Option (List ErrorData)
  isExecutionSuccess : Option Bool
  isValidationSuccess : Option Bool

/-- A list that is dumped, or null. -/
def dumpList {α : Type} (dump : α → Json) (l : Option (List α)) : Json :=
  l.elim (.scalar .null) fun l => .array (l.map dump)

theorem optional_listOf {α : Type} {validate : Json → Option α} {dump : α → Json}
    (h : ∀ a, validate (dump a) = some a) (l : Option (List α)) :
    optional (listOf validate) (dumpList dump l) = some l := by
  cases l with
  | none => rfl
  | some l => exact congrArg (Option.map some) (mapM_map h l)

theorem Pydantic.optional_bool (pydantic : Pydantic) (b : Option Bool) :
    optional pydantic.bool (optionalFlag b) = some b := by
  cases b with
  | none => rfl
  | some b => exact congrArg (Option.map some) (pydantic.bool_eq b)

namespace PacketExecutionSummary

def validate (pydantic : Pydantic) (value : Json) : Option PacketExecutionSummary :=
  if value.isObject then do
    let hasExecutionErrors ← optional pydantic.bool (value.item "hasExecutionErrors".toList)
    let hasValidationErrors ← optional pydantic.bool (value.item "hasValidationErrors".toList)
    let packetStatus ← optional Json.string (value.item "packetStatus".toList)
    let errorData ← optional (listOf ErrorData.validate) (value.item "errorData".toList)
    let isExecutionSuccess ← optional pydantic.bool (value.item "isExecutionSuccess".toList)
    let isValidationSuccess ← optional pydantic.bool (value.item "isValidationSuccess".toList)
    return ⟨hasExecutionErrors, hasValidationErrors, packetStatus, errorData, isExecutionSuccess,
      isValidationSuccess⟩
  else none

def dump (s : PacketExecutionSummary) : Json := .object [
  ("hasExecutionErrors".toList, optionalFlag s.hasExecutionErrors),
  ("hasValidationErrors".toList, optionalFlag s.hasValidationErrors),
  ("packetStatus".toList, Json.optional s.packetStatus),
  ("errorData".toList, dumpList ErrorData.dump s.errorData),
  ("isExecutionSuccess".toList, optionalFlag s.isExecutionSuccess),
  ("isValidationSuccess".toList, optionalFlag s.isValidationSuccess)]

theorem validate_dump (pydantic : Pydantic) (s : PacketExecutionSummary) :
    validate pydantic s.dump = some s := by
  have hexecution : s.dump.item "hasExecutionErrors".toList =
      optionalFlag s.hasExecutionErrors := rfl
  have hvalidation : s.dump.item "hasValidationErrors".toList =
      optionalFlag s.hasValidationErrors := rfl
  have hstatus : s.dump.item "packetStatus".toList = Json.optional s.packetStatus := rfl
  have herrors : s.dump.item "errorData".toList = dumpList ErrorData.dump s.errorData := rfl
  have hexecuted : s.dump.item "isExecutionSuccess".toList =
      optionalFlag s.isExecutionSuccess := rfl
  have hvalidated : s.dump.item "isValidationSuccess".toList =
      optionalFlag s.isValidationSuccess := rfl
  rw [validate, hexecution, hvalidation, hstatus, herrors, hexecuted, hvalidated]
  simp only [pydantic.optional_bool, optional_string, optional_listOf ErrorData.validate_dump]
  rfl

end PacketExecutionSummary

structure PacketMetaData where
  refId : Option Text
  srn : Option Text
  enrolmentType : Option Text
  pktSource : Option Text
  uid : Option Text
  extra : Extra ["refId".toList, "srn".toList, "enrolmentType".toList, "pktSource".toList,
    "uid".toList]

namespace PacketMetaData

def validate : Json → Option PacketMetaData
  | .object items => do
    let value := Json.object items
    let refId ← optional Json.string (value.item "refId".toList)
    let srn ← optional Json.string (value.item "srn".toList)
    let enrolmentType ← optional Json.string (value.item "enrolmentType".toList)
    let pktSource ← optional Json.string (value.item "pktSource".toList)
    let uid ← optional Json.string (value.item "uid".toList)
    return ⟨refId, srn, enrolmentType, pktSource, uid, .ofItems _ items⟩
  | _ => none

def fields (m : PacketMetaData) : List (Text × Json) := [
  ("refId".toList, Json.optional m.refId), ("srn".toList, Json.optional m.srn),
  ("enrolmentType".toList, Json.optional m.enrolmentType),
  ("pktSource".toList, Json.optional m.pktSource), ("uid".toList, Json.optional m.uid)]

def dump (m : PacketMetaData) : Json := .object (m.fields ++ m.extra.items)

theorem validate_dump (m : PacketMetaData) : validate m.dump = some m := by
  have hrefId : m.dump.item "refId".toList = Json.optional m.refId := rfl
  have hsrn : m.dump.item "srn".toList = Json.optional m.srn := rfl
  have htype : m.dump.item "enrolmentType".toList = Json.optional m.enrolmentType := rfl
  have hsource : m.dump.item "pktSource".toList = Json.optional m.pktSource := rfl
  have huid : m.dump.item "uid".toList = Json.optional m.uid := rfl
  have hextra := Extra.ofItems_append m.fields (by simp [fields]) m.extra
  unfold dump at *
  rw [validate, hrefId, hsrn, htype, hsource, huid, hextra]
  simp only [optional_string]
  rfl

end PacketMetaData

structure FlowMetaData where
  stage : Option Text
  subStage : Option Text
  extra : Extra ["stage".toList, "subStage".toList]

namespace FlowMetaData

def validate : Json → Option FlowMetaData
  | .object items => do
    let value := Json.object items
    let stage ← optional Json.string (value.item "stage".toList)
    let subStage ← optional Json.string (value.item "subStage".toList)
    return ⟨stage, subStage, .ofItems _ items⟩
  | _ => none

def fields (m : FlowMetaData) : List (Text × Json) := [
  ("stage".toList, Json.optional m.stage), ("subStage".toList, Json.optional m.subStage)]

def dump (m : FlowMetaData) : Json := .object (m.fields ++ m.extra.items)

theorem validate_dump (m : FlowMetaData) : validate m.dump = some m := by
  have hstage : m.dump.item "stage".toList = Json.optional m.stage := rfl
  have hsubStage : m.dump.item "subStage".toList = Json.optional m.subStage := rfl
  have hextra := Extra.ofItems_append m.fields (by simp [fields]) m.extra
  unfold dump at *
  rw [validate, hstage, hsubStage, hextra]
  simp only [optional_string]
  rfl

end FlowMetaData

/-- A dict with any values. -/
def dict : Json → Option (List (Text × Json))
  | .object items => some items
  | _ => none

def dumpDict (items : Option (List (Text × Json))) : Json := items.elim (.scalar .null) .object

theorem optional_dict (items : Option (List (Text × Json))) :
    optional dict (dumpDict items) = some items := by
  cases items <;> rfl

/-- A model that may be missing. -/
def dumpModel {α : Type} (dump : α → Json) (m : Option α) : Json := m.elim (.scalar .null) dump

theorem optional_model {α : Type} {validate : Json → Option α} {dump : α → Json}
    (hobject : ∀ a, (dump a).isNull = false) (h : ∀ a, validate (dump a) = some a)
    (m : Option α) : optional validate (dumpModel dump m) = some m := by
  cases m with
  | none => rfl
  | some a =>
    show optional validate (dump a) = some (some a)
    rw [optional, hobject, h]
    rfl

structure MessagePayload where
  eventId : Text
  category : Option Text
  eventType : Option Text
  eventTimestamp : Option Text
  eventVersion : Option Text
  sid : Option Text
  sidDate : Option Text
  version : Option Text
  sourceTopic : Option Text
  callbackTopic : Option Text
  flowMetaData : Option FlowMetaData
  taskMetaData : Json
  packetMetaData : Option PacketMetaData
  packetExecutionSummary : PacketExecutionSummary
  rejectBits : Json
  requestStage : Option Text
  requestStageStatus : Option Text
  resubmissionSummary : Option (List (Text × Json))
  uidV2DataArray : Json
  isEventId_eventId : isEventId eventId = true

namespace MessagePayload

/-- `MessagePayload(**payload)`, which takes either contract. -/
def validate (pydantic : Pydantic) (payload : Json) : Option MessagePayload :=
  let value := toMessagePayload payload
  if value.isObject then do
    let eventId ← (value.item "eventId".toList).string
    let category ← optional Json.string (value.item "category".toList)
    let eventType ← optional Json.string (value.item "eventType".toList)
    let eventTimestamp ← optional Json.string (value.item "eventTimestamp".toList)
    let eventVersion ← optional Json.string (value.item "eventVersion".toList)
    let sid ← optional Json.string (value.item "sid".toList)
    let sidDate ← optional Json.string (value.item "sidDate".toList)
    let version ← optional Json.string (value.item "version".toList)
    let sourceTopic ← optional Json.string (value.item "sourceTopic".toList)
    let callbackTopic ← optional Json.string (value.item "callbackTopic".toList)
    let flowMetaData ← optional FlowMetaData.validate (value.item "flowMetaData".toList)
    let packetMetaData ← optional PacketMetaData.validate (value.item "packetMetaData".toList)
    let packetExecutionSummary ← PacketExecutionSummary.validate pydantic
      (value.item "packetExecutionSummary".toList)
    let requestStage ← optional Json.string (value.item "requestStage".toList)
    let requestStageStatus ← optional Json.string (value.item "requestStageStatus".toList)
    let resubmissionSummary ← optional dict (value.item "resubmissionSummary".toList)
    if h : isEventId eventId = true then
      some ⟨eventId, category, eventType, eventTimestamp, eventVersion, sid, sidDate, version,
        sourceTopic, callbackTopic, flowMetaData, value.item "taskMetaData".toList,
        packetMetaData, packetExecutionSummary, value.item "rejectBits".toList, requestStage,
        requestStageStatus, resubmissionSummary, value.item "uidV2DataArray".toList, h⟩
    else none
  else none

def fields (m : MessagePayload) : List (Text × Json) := [
  ("eventId".toList, .text m.eventId), ("category".toList, Json.optional m.category),
  ("eventType".toList, Json.optional m.eventType),
  ("eventTimestamp".toList, Json.optional m.eventTimestamp),
  ("eventVersion".toList, Json.optional m.eventVersion), ("sid".toList, Json.optional m.sid),
  ("sidDate".toList, Json.optional m.sidDate), ("version".toList, Json.optional m.version),
  ("sourceTopic".toList, Json.optional m.sourceTopic),
  ("callbackTopic".toList, Json.optional m.callbackTopic),
  ("flowMetaData".toList, dumpModel FlowMetaData.dump m.flowMetaData),
  ("taskMetaData".toList, m.taskMetaData),
  ("packetMetaData".toList, dumpModel PacketMetaData.dump m.packetMetaData),
  ("packetExecutionSummary".toList, m.packetExecutionSummary.dump),
  ("rejectBits".toList, m.rejectBits), ("requestStage".toList, Json.optional m.requestStage),
  ("requestStageStatus".toList, Json.optional m.requestStageStatus),
  ("resubmissionSummary".toList, dumpDict m.resubmissionSummary),
  ("uidV2DataArray".toList, m.uidV2DataArray)]

/-- `model_dump()` -/
def dump (m : MessagePayload) : Json := .object m.fields

variable {pydantic : Pydantic}

/-- **What is written is kept whole.** -/
theorem validate_dump (m : MessagePayload) : validate pydantic m.dump = some m := by
  have hsame : toMessagePayload m.dump = m.dump := toMessagePayload_of_hasKey rfl
  have heventId : (m.dump.item "eventId".toList).string = some m.eventId := rfl
  have hcategory : m.dump.item "category".toList = Json.optional m.category := rfl
  have htype : m.dump.item "eventType".toList = Json.optional m.eventType := rfl
  have htimestamp : m.dump.item "eventTimestamp".toList = Json.optional m.eventTimestamp := rfl
  have heventVersion : m.dump.item "eventVersion".toList = Json.optional m.eventVersion := rfl
  have hsid : m.dump.item "sid".toList = Json.optional m.sid := rfl
  have hsidDate : m.dump.item "sidDate".toList = Json.optional m.sidDate := rfl
  have hversion : m.dump.item "version".toList = Json.optional m.version := rfl
  have hsource : m.dump.item "sourceTopic".toList = Json.optional m.sourceTopic := rfl
  have hcallback : m.dump.item "callbackTopic".toList = Json.optional m.callbackTopic := rfl
  have hflow : m.dump.item "flowMetaData".toList =
      dumpModel FlowMetaData.dump m.flowMetaData := rfl
  have htask : m.dump.item "taskMetaData".toList = m.taskMetaData := rfl
  have hpacket : m.dump.item "packetMetaData".toList =
      dumpModel PacketMetaData.dump m.packetMetaData := rfl
  have hsummary : m.dump.item "packetExecutionSummary".toList =
      m.packetExecutionSummary.dump := rfl
  have hreject : m.dump.item "rejectBits".toList = m.rejectBits := rfl
  have hstage : m.dump.item "requestStage".toList = Json.optional m.requestStage := rfl
  have hstageStatus : m.dump.item "requestStageStatus".toList =
      Json.optional m.requestStageStatus := rfl
  have hresubmission : m.dump.item "resubmissionSummary".toList =
      dumpDict m.resubmissionSummary := rfl
  have huids : m.dump.item "uidV2DataArray".toList = m.uidV2DataArray := rfl
  have hflow' := optional_model (fun _ => rfl) FlowMetaData.validate_dump m.flowMetaData
  have hpacket' := optional_model (fun _ => rfl) PacketMetaData.validate_dump m.packetMetaData
  have hsummary' := PacketExecutionSummary.validate_dump pydantic m.packetExecutionSummary
  have hobject : m.dump.isObject = true := rfl
  simp only [validate, hsame, hobject, heventId, hcategory, htype, htimestamp, heventVersion, hsid,
    hsidDate, hversion, hsource, hcallback, hflow, htask, hpacket, hsummary, hreject, hstage,
    hstageStatus, hresubmission, huids, hflow', hpacket', hsummary', optional_string,
    optional_dict, Option.bind_eq_bind, Option.bind_some, if_true, dif_pos m.isEventId_eventId]

/-- What is kept of a value. -/
structure ReadFrom (pydantic : Pydantic) (value : Json) (m : MessagePayload) : Prop where
  eventId : (value.item "eventId".toList).string = some m.eventId
  flowMetaData :
    optional FlowMetaData.validate (value.item "flowMetaData".toList) = some m.flowMetaData
  taskMetaData : value.item "taskMetaData".toList = m.taskMetaData
  packetMetaData :
    optional PacketMetaData.validate (value.item "packetMetaData".toList) = some m.packetMetaData
  packetExecutionSummary : PacketExecutionSummary.validate pydantic
    (value.item "packetExecutionSummary".toList) = some m.packetExecutionSummary
  rejectBits : value.item "rejectBits".toList = m.rejectBits
  resubmissionSummary :
    optional dict (value.item "resubmissionSummary".toList) = some m.resubmissionSummary
  uidV2DataArray : value.item "uidV2DataArray".toList = m.uidV2DataArray

theorem readFrom_of_validate {payload : Json} {m : MessagePayload}
    (h : validate pydantic payload = some m) :
    ReadFrom pydantic (toMessagePayload payload) m := by
  unfold validate at h
  dsimp only at h
  split at h
  · obtain ⟨eventId, heventId, h⟩ := Option.bind_eq_some_iff.1 h
    obtain ⟨category, -, h⟩ := Option.bind_eq_some_iff.1 h
    obtain ⟨eventType, -, h⟩ := Option.bind_eq_some_iff.1 h
    obtain ⟨eventTimestamp, -, h⟩ := Option.bind_eq_some_iff.1 h
    obtain ⟨eventVersion, -, h⟩ := Option.bind_eq_some_iff.1 h
    obtain ⟨sid, -, h⟩ := Option.bind_eq_some_iff.1 h
    obtain ⟨sidDate, -, h⟩ := Option.bind_eq_some_iff.1 h
    obtain ⟨version, -, h⟩ := Option.bind_eq_some_iff.1 h
    obtain ⟨sourceTopic, -, h⟩ := Option.bind_eq_some_iff.1 h
    obtain ⟨callbackTopic, -, h⟩ := Option.bind_eq_some_iff.1 h
    obtain ⟨flowMetaData, hflow, h⟩ := Option.bind_eq_some_iff.1 h
    obtain ⟨packetMetaData, hpacket, h⟩ := Option.bind_eq_some_iff.1 h
    obtain ⟨packetExecutionSummary, hsummary, h⟩ := Option.bind_eq_some_iff.1 h
    obtain ⟨requestStage, -, h⟩ := Option.bind_eq_some_iff.1 h
    obtain ⟨requestStageStatus, -, h⟩ := Option.bind_eq_some_iff.1 h
    obtain ⟨resubmissionSummary, hresubmission, h⟩ := Option.bind_eq_some_iff.1 h
    split at h
    · obtain rfl := Option.some.inj h
      exact ⟨heventId, hflow, rfl, hpacket, hsummary, rfl, hresubmission, rfl⟩
    · cases h
  · cases h

end MessagePayload

end ResidentCrm.Messages
