import ResidentCrm.Messages.Written

/-!
# A dead-lettered record on its way

`DltMessage` of `models/dlt_schemas.py`, what a record has to look like to be one and how it is
written, with `queued`, what `fetch_dlt_logs` of `api/dlt_routes.py` adds to it for the analysis
queue. What is written is kept whole, the additions too (`validate_dump`, `queued_eq`).
-/

namespace ResidentCrm.Messages

def DltMessage.declared : List Text :=
  ["case_id".toList, "headers".toList, "payload".toList, "payload_raw".toList,
    "record_key".toList, "ref_id".toList, "ref_id_source".toList, "payload_ref_id".toList,
    "ref_id_mismatch".toList, "event_id".toList]

structure DltMessage where
  caseId : Text
  headers : List (Text × Option Text)
  payload : Json
  payloadRaw : Option Text
  recordKey : Option Text
  refId : Option Text
  refIdSource : Text
  payloadRefId : Option Text
  refIdMismatch : Bool
  eventId : Option Text
  extra : Extra DltMessage.declared
  isEventId_caseId : isEventId caseId = true

namespace DltMessage

/-- `Dict[str, Optional[str]]` -/
def readHeaders : Json → Option (List (Text × Option Text))
  | .object items => items.mapM fun item => (optional Json.string item.2).map fun v => (item.1, v)
  | _ => none

def dumpHeaders (headers : List (Text × Option Text)) : Json :=
  .object (headers.map fun header => (header.1, Json.optional header.2))

/-- A field with a default. -/
def withDefault {α : Type} (read : Json → Option α) (default : α) (value : Json) (key : Text) :
    Option α :=
  if value.hasKey key then read (value.item key) else some default

/-- `DltMessage(**payload)` -/
def validate (pydantic : Pydantic) : Json → Option DltMessage
  | .object items => do
    let value := Json.object items
    let caseId ← (value.item "case_id".toList).string
    let headers ← withDefault readHeaders [] value "headers".toList
    let payloadRaw ← optional Json.string (value.item "payload_raw".toList)
    let recordKey ← optional Json.string (value.item "record_key".toList)
    let refId ← optional Json.string (value.item "ref_id".toList)
    let refIdSource ← withDefault Json.string "none".toList value "ref_id_source".toList
    let payloadRefId ← optional Json.string (value.item "payload_ref_id".toList)
    let refIdMismatch ← withDefault pydantic.bool false value "ref_id_mismatch".toList
    let eventId ← optional Json.string (value.item "event_id".toList)
    if h : isEventId caseId = true then
      some ⟨caseId, headers, value.item "payload".toList, payloadRaw, recordKey, refId,
        refIdSource, payloadRefId, refIdMismatch, eventId, .ofItems _ items, h⟩
    else none
  | _ => none

def fields (m : DltMessage) : List (Text × Json) := [
  ("case_id".toList, .text m.caseId), ("headers".toList, dumpHeaders m.headers),
  ("payload".toList, m.payload), ("payload_raw".toList, Json.optional m.payloadRaw),
  ("record_key".toList, Json.optional m.recordKey), ("ref_id".toList, Json.optional m.refId),
  ("ref_id_source".toList, .text m.refIdSource),
  ("payload_ref_id".toList, Json.optional m.payloadRefId),
  ("ref_id_mismatch".toList, .scalar (.bool m.refIdMismatch)),
  ("event_id".toList, Json.optional m.eventId)]

/-- `model_dump()` -/
def dump (m : DltMessage) : Json := .object (m.fields ++ m.extra.items)

theorem readHeaders_dumpHeaders (headers : List (Text × Option Text)) :
    readHeaders (dumpHeaders headers) = some headers := by
  have hread : ∀ l : List (Text × Option Text),
      (l.map fun header => (header.1, Json.optional header.2)).mapM
        (fun item => (optional Json.string item.2).map fun v => (item.1, v)) = some l := by
    intro l
    induction l with
    | nil => rfl
    | cons header l ih =>
      rw [List.map_cons, List.mapM_cons, ih, optional_string]
      rfl
  exact hread headers

/-- **What is written is kept whole.** -/
theorem validate_dump (pydantic : Pydantic) (m : DltMessage) :
    validate pydantic m.dump = some m := by
  have hcaseId : (m.dump.item "case_id".toList).string = some m.caseId := rfl
  have hheaders : withDefault readHeaders [] m.dump "headers".toList =
      readHeaders (dumpHeaders m.headers) := rfl
  have hpayload : m.dump.item "payload".toList = m.payload := rfl
  have hraw : m.dump.item "payload_raw".toList = Json.optional m.payloadRaw := rfl
  have hkey : m.dump.item "record_key".toList = Json.optional m.recordKey := rfl
  have hrefId : m.dump.item "ref_id".toList = Json.optional m.refId := rfl
  have hsource : withDefault Json.string "none".toList m.dump "ref_id_source".toList =
      some m.refIdSource := rfl
  have hpayloadRefId : m.dump.item "payload_ref_id".toList = Json.optional m.payloadRefId := rfl
  have hmismatch : withDefault pydantic.bool false m.dump "ref_id_mismatch".toList =
      pydantic.bool (.scalar (.bool m.refIdMismatch)) := rfl
  have heventId : m.dump.item "event_id".toList = Json.optional m.eventId := rfl
  have hextra := Extra.ofItems_append m.fields (by simp [fields, declared]) m.extra
  unfold dump at *
  rw [validate, hcaseId, hheaders, hpayload, hraw, hkey, hrefId, hsource, hpayloadRefId, hmismatch,
    heventId, hextra]
  simp only [optional_string, readHeaders_dumpHeaders, pydantic.bool_eq, Option.bind_eq_bind,
    Option.bind_some, dif_pos m.isEventId_caseId]

/-! ## The analysis queue -/

/-- A list of texts. -/
def textList (l : List Text) : Json := .array (l.map Json.text)

/-- The message for the queue: `queued[...] = ...` three times over. -/
def queued (m : DltMessage) (gaps : List Text) (window : Option Text) (versions : List Text) :
    Json :=
  .object (setItem "baseline_versions".toList (textList versions)
    (setItem "log_window".toList (Json.optional window)
      (setItem "evidence_gaps".toList (textList gaps) (m.fields ++ m.extra.items))))

end DltMessage

theorem setItem_append {key : Text} {v : Json} {fields items : List (Text × Json)}
    (h : key ∉ fields.map Prod.fst) :
    setItem key v (fields ++ items) = fields ++ setItem key v items := by
  induction fields with
  | nil => rfl
  | cons field fields ih =>
    rw [List.map_cons, List.mem_cons, not_or] at h
    rw [List.cons_append, setItem, if_neg fun hsame => h.1 hsame.symm, ih h.2, List.cons_append]

/-- Another field. -/
def Extra.set {declared : List Text} (extra : Extra declared) (key : Text) (v : Json)
    (h : key ∉ declared) : Extra declared where
  items := setItem key v extra.items
  undeclared item hitem := by
    have hkeys : item.1 ∈ (setItem key v extra.items).map Prod.fst :=
      List.mem_map.2 ⟨item, hitem, rfl⟩
    rcases mem_keys_setItem.1 hkeys with hsame | hmem
    · rw [hsame]
      exact h
    · obtain ⟨old, hold, hsame⟩ := List.mem_map.1 hmem
      rw [← hsame]
      exact extra.undeclared old hold

namespace DltMessage

theorem evidenceGaps_undeclared : "evidence_gaps".toList ∉ declared := by decide

theorem logWindow_undeclared : "log_window".toList ∉ declared := by decide

theorem baselineVersions_undeclared : "baseline_versions".toList ∉ declared := by decide

/-- The message as the queue has it. -/
def enqueued (m : DltMessage) (gaps : List Text) (window : Option Text) (versions : List Text) :
    DltMessage :=
  { m with
    extra := ((m.extra.set "evidence_gaps".toList (textList gaps) evidenceGaps_undeclared).set
      "log_window".toList (Json.optional window) logWindow_undeclared).set
      "baseline_versions".toList (textList versions) baselineVersions_undeclared }

theorem queued_eq (m : DltMessage) (gaps : List Text) (window : Option Text)
    (versions : List Text) :
    m.queued gaps window versions = (m.enqueued gaps window versions).dump := by
  have hkeys : m.fields.map Prod.fst = declared := rfl
  have hnot : ∀ key ∉ declared, key ∉ m.fields.map Prod.fst := fun key h => hkeys ▸ h
  rw [queued, setItem_append (hnot _ evidenceGaps_undeclared),
    setItem_append (hnot _ logWindow_undeclared),
    setItem_append (hnot _ baselineVersions_undeclared)]
  rfl

/-! ## What can be written -/

/-- The message can be written as JSON. -/
structure Writable (m : DltMessage) : Prop where
  headers : (m.headers.map Prod.fst).Nodup
  payload : m.payload.Valid
  extra : (Json.object m.extra.items).Valid

theorem Writable.valid_dump {m : DltMessage} (h : m.Writable) : m.dump.Valid := by
  have hQ := partwise_valid
  have hheaders : (dumpHeaders m.headers).Valid := by
    refine valid_object.2 ⟨?_, fun item hitem => ?_⟩
    · rw [List.map_map]
      exact h.headers
    · obtain ⟨header, -, rfl⟩ := List.mem_map.1 hitem
      exact of_optional hQ _
  refine of_extra hQ (by decide) rfl ?_ (valid_object.1 h.extra).1 h.extra
  simp only [fields, List.forall_mem_cons, hQ.text, hQ.bool, of_optional hQ, hheaders, h.payload,
    List.not_mem_nil, false_imp_iff, implies_true, and_self]

theorem of_textList {Q : Json → Prop} (hQ : Json.Partwise Q) (l : List Text) :
    Q (textList l) := by
  refine hQ.array.2 fun v hv => ?_
  obtain ⟨t, -, rfl⟩ := List.mem_map.1 hv
  exact hQ.text t

theorem valid_set {extra : Extra declared} {key : Text} {v : Json} (hkey : key ∉ declared)
    (hextra : (Json.object extra.items).Valid) (hv : v.Valid) :
    (Json.object (extra.set key v hkey).items).Valid := by
  obtain ⟨hnodup, hvalid⟩ := valid_object.1 hextra
  exact valid_object.2 ⟨nodup_setItem hnodup, forall_setItem hv hvalid⟩

theorem Writable.enqueued {m : DltMessage} (h : m.Writable) (gaps : List Text)
    (window : Option Text) (versions : List Text) :
    (m.enqueued gaps window versions).Writable := by
  have hQ := partwise_valid
  have hgaps := valid_set evidenceGaps_undeclared h.extra (of_textList hQ gaps)
  have hwindow := valid_set logWindow_undeclared hgaps (of_optional hQ window)
  exact ⟨h.headers, h.payload,
    valid_set baselineVersions_undeclared hwindow (of_textList hQ versions)⟩

/-- What the fetch stage adds is finite. -/
theorem isFinite_enqueued {m : DltMessage} (h : m.dump.isFinite = true) (gaps : List Text)
    (window : Option Text) (versions : List Text) :
    (m.enqueued gaps window versions).dump.isFinite = true := by
  have hQ := partwise_isFinite
  rw [← queued_eq]
  have hset : ∀ {key : Text} {v : Json} {items : List (Text × Json)}, v.isFinite = true →
      (∀ item ∈ items, item.2.isFinite = true) →
      ∀ item ∈ setItem key v items, item.2.isFinite = true := fun hv hitems =>
    forall_setItem (P := fun v : Json => v.isFinite = true) hv hitems
  apply isFinite_object.2
  apply hset (of_textList hQ versions)
  apply hset (of_optional hQ window)
  apply hset (of_textList hQ gaps)
  exact isFinite_object.1 h

theorem keys_readHeaders {items : List (Text × Json)} {headers : List (Text × Option Text)}
    (h : readHeaders (.object items) = some headers) :
    headers.map Prod.fst = items.map Prod.fst := by
  induction items generalizing headers with
  | nil =>
    obtain rfl := Option.some.inj h
    rfl
  | cons item items ih =>
    rw [readHeaders, List.mapM_cons] at h
    simp only [Option.bind_eq_bind, Option.bind_eq_some_iff, Option.pure_def,
      Option.some.injEq] at h
    obtain ⟨header, hheader, rest, hrest, rfl⟩ := h
    obtain ⟨value, -, rfl⟩ := Option.map_eq_some_iff.1 hheader
    rw [List.map_cons, List.map_cons, ih hrest]

theorem nodup_readHeaders {v : Json} {headers : List (Text × Option Text)} (hv : v.Valid)
    (h : readHeaders v = some headers) : (headers.map Prod.fst).Nodup := by
  cases v with
  | scalar => cases h
  | array => cases h
  | object items =>
    rw [keys_readHeaders h]
    exact (valid_object.1 hv).1

/-- A message that was read off JSON. -/
theorem writable_of_validate {pydantic : Pydantic} {v : Json} {m : DltMessage} (hv : v.Valid)
    (h : validate pydantic v = some m) : m.Writable := by
  unfold validate at h
  split at h
  · next items =>
    simp only [Option.bind_eq_bind, Option.bind_eq_some_iff] at h
    obtain ⟨caseId, -, headers, hheaders, payloadRaw, -, recordKey, -, refId, -, refIdSource, -,
      payloadRefId, -, refIdMismatch, -, eventId, -, h⟩ := h
    split at h
    · obtain rfl := Option.some.inj h
      refine ⟨?_, valid_item hv _, of_ofItems partwise_valid hv hv⟩
      unfold withDefault at hheaders
      split at hheaders
      · exact nodup_readHeaders (valid_item hv _) hheaders
      · obtain rfl := Option.some.inj hheaders
        exact List.nodup_nil
    · cases h
  · cases h

end DltMessage

end ResidentCrm.Messages
