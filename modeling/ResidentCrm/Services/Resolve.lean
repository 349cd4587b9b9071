import ResidentCrm.Services.Lookup

/-!
# Which service a packet belongs to

`resolve` places a rejected packet and `resolve_dlt` a dead-lettered record, each by the first of
its steps that names one service; a later step that names another one is a conflict. Either raises
where the `errorData` of the payload is a number or `true`, which cannot be iterated over: `none`
here.
-/

namespace ResidentCrm

namespace Services

/-! ## The evidence of a payload -/

/-- How a service was resolved. -/
inductive Source
  | reasonCodeMap | flowStage | sourceTopic | reasonCodeDocs | none
  | consumerGroup | originalTopic | javaPackage
  deriving DecidableEq, Repr

/-- `UNRESOLVED`. -/
def unresolved : Text := "_unresolved".toList

/-- The reason-code service map, which lists a service under its name only. -/
structure ServiceMap where
  byCode : List (Text × List Text)
  named : ∀ entry ∈ byCode, ∀ service ∈ entry.2, service ≠ []

def ServiceMap.servicesFor (m : ServiceMap) (code : Option Text) : List Text :=
  (code.bind (m.byCode.lookup ·)).getD []

/-- The documentation files that document a reason code; no file has an empty stem. -/
structure Docs where
  servicesForCode : Text → List Text
  named : ∀ code, ∀ stem ∈ servicesForCode code, stem ≠ []

/-- `_text`: the text without blanks around it, and nothing where none is left. -/
def text (s : Option Text) : Option Text := (s.map Text.strip).filter (· ≠ [])

def textAt (key : String) (value : Json) : Option Text := text (value.item key.toList).string

/-- What `for error in value or []` goes through; it raises where that is a number or `true`. -/
def elements (value : Json) : Option (List Json) :=
  if value.isFalsy then some []
  else match value with
    | .array l => some l
    | .object items => some (items.map fun item => .text item.1)
    | .scalar (.string s) => some (s.map fun c => .text [c])
    | .scalar _ => none

/-- `_reason_code_of`: the first `errorReasonCode` that is not empty. -/
def reasonCodeOf (payload : Json) : Option (Option Text) :=
  let summary := payload.item "packetExecutionSummary".toList
  if summary.isObject then
    (elements (summary.item "errorData".toList)).map fun errors =>
      errors.findSome? (textAt "errorReasonCode")
  else some none

/-- The registered services whose documentation file documents the code. -/
def documentedBy (docs : Docs) (r : Registry) (code : Option Text) : List Text :=
  match code with
  | some code =>
    ((docs.servicesForCode code).map r.serviceForDocsFile).dedup.insertionSort (· ≤ ·)
  | none => []

/-! ## Deciding between the steps -/

structure Outcome where
  candidate : Option Text := none
  source : Source := .none
  matched : Option Text := none
  /-- The later steps that named another service, each with the one it named. -/
  conflict : List (Source × Text) := []
  deriving DecidableEq

/-- A step that names one service decides, or confirms, or is recorded. -/
def Outcome.consider (o : Outcome) (source : Source) (service : Text) (value : Option Text) :
    Outcome :=
  match o.candidate with
  | none => { o with candidate := some service, source := source, matched := value }
  | some candidate =>
    if service ≠ candidate then { o with conflict := o.conflict ++ [(source, service)] } else o

/-- One step: where it looks, the value it looks for, and the services that claim it. -/
structure Step where
  source : Source
  value : Option Text
  found : List Text
  deriving DecidableEq

/-- The service the step names, if it names exactly one. -/
def Step.single (step : Step) : Option Text :=
  match step.found with
  | [service] => some service
  | _ => none

def Outcome.weigh (o : Outcome) (step : Step) : Outcome :=
  match step.single with
  | some service => o.consider step.source service step.value
  | none => o

structure ServiceResolution where
  service : Text
  source : Source
  matched : Option Text
  conflict : List (Source × Text)
  /-- The values the steps looked for, by their keys. -/
  detail : List (String × Option Text)
  deriving DecidableEq

/-- `candidate or UNRESOLVED`. -/
def Outcome.resolution (o : Outcome) (detail : List (String × Option Text)) : ServiceResolution where
  service := (o.candidate.filter (· ≠ [])).getD unresolved
  source := o.source
  matched := o.matched
  conflict := o.conflict
  detail := detail

section

-- `str.lower`
variable (lower : Text → Text) (r : Registry) (docs : Docs)

/-- The services that match the stage and the sub-stage of a payload. -/
def stageServices (stage subStage : Option Text) : List Text :=
  match stage with
  | some stage => r.byStage (lower stage) (subStage.map lower)
  | none => []

/-- `resolve`. -/
def resolve (serviceMap : ServiceMap) (payload : Json) : Option ServiceResolution := do
  let flow := payload.item "flowMetaData".toList
  let stage := textAt "stage" flow
  let subStage := textAt "subStage" flow
  let topic := textAt "sourceTopic" payload
  let code ← reasonCodeOf payload
  let detail := [("stage", stage), ("sub_stage", subStage), ("source_topic", topic),
    ("reason_code", code)]
  let o : Outcome := {}
  let o := match serviceMap.servicesFor code with
    | [service] => o.consider .reasonCodeMap service code
    | _ => o
  -- the stage, else the topic: whichever names the service the payload itself points at
  let byPayload := match stageServices lower r stage subStage with
    | [service] => some (Source.flowStage, service, stage)
    | _ => match topic.elim [] r.byTopic with
      | [service] => some (Source.sourceTopic, service, topic)
      | _ => none
  let o := match byPayload with
    | some (source, service, value) => o.consider source service value
    | none => o
  let o := match documentedBy docs r code with
    | [service] => o.consider .reasonCodeDocs service code
    | _ => o
  return o.resolution detail

/-- A dead-lettered record: its payload, its headers and its trace. -/
structure DltRecord where
  payload : Json
  consumerGroup : Option Text := none
  originalTopic : Option Text := none
  frames : List Text := []
  businessCode : Option Text := none

/-- The reason codes the last step weighs: the one the trace carries, then the payload's. -/
def codesOf (businessCode payloadCode : Option Text) : List Text :=
  ([text businessCode, payloadCode].reduceOption).eraseDups

/-- The code that decides the last step: the first that any file documents. -/
def documentedCode (codes : List Text) : Option Text :=
  (codes.find? fun code => documentedBy docs r (some code) ≠ []).or codes.head?

/-- The steps of `resolve_dlt`, in their order. -/
def dltSteps (record : DltRecord) (payloadCode : Option Text) : List Step :=
  let flow := record.payload.item "flowMetaData".toList
  let group := text record.consumerGroup
  let origin := text record.originalTopic
  let topic := textAt "sourceTopic" record.payload
  let (packageServices, packageFrame) := r.byJavaPackage record.frames
  let code := documentedCode r docs (codesOf record.businessCode payloadCode)
  [⟨.consumerGroup, group, group.elim [] r.byConsumerGroup⟩,
    ⟨.flowStage, textAt "stage" flow,
      stageServices lower r (textAt "stage" flow) (textAt "subStage" flow)⟩,
    ⟨.originalTopic, origin, origin.elim [] r.byOriginalTopic⟩,
    ⟨.javaPackage, packageFrame, packageServices⟩,
    ⟨.sourceTopic, topic, topic.elim [] r.byTopic⟩,
    ⟨.reasonCodeDocs, code, documentedBy docs r code⟩]

/-- `resolve_dlt`. -/
def resolveDlt (record : DltRecord) : Option ServiceResolution := do
  let flow := record.payload.item "flowMetaData".toList
  let payloadCode ← reasonCodeOf record.payload
  let detail := [("consumer_group", text record.consumerGroup),
    ("original_topic", text record.originalTopic), ("stage", textAt "stage" flow),
    ("sub_stage", textAt "subStage" flow), ("source_topic", textAt "sourceTopic" record.payload),
    ("java_frame", (r.byJavaPackage record.frames).2),
    ("reason_code", documentedCode r docs (codesOf record.businessCode payloadCode))]
  return ((dltSteps lower r docs record payloadCode).foldl Outcome.weigh {}).resolution detail

end

end Services

end ResidentCrm
