import ResidentCrm.Lib.JsonStyles
import ResidentCrm.Messages.MessagePayload

/-!
# What is kept can be written

What a value has by its parts (`Json.Partwise`) the packet event has that is read off it: no key
twice and no number that JSON does not have, and none that is not finite (`dump_of_validate`). An
envelope is translated into such an event too.
-/

namespace ResidentCrm.Messages

variable {Q : Json → Prop} (hQ : Json.Partwise Q)
include hQ

theorem of_optional (s : Option Text) : Q (Json.optional s) := by
  cases s with
  | none => exact hQ.null
  | some t => exact hQ.text t

theorem of_optionalFlag (b : Option Bool) : Q (optionalFlag b) := by
  cases b with
  | none => exact hQ.null
  | some b => exact hQ.bool b

/-- The extra fields go after the declared ones. -/
theorem of_extra {declared : List Text} {fields : List (Text × Json)} {extra : Extra declared}
    (hdeclared : declared.Nodup) (hkeys : fields.map Prod.fst = declared)
    (hfields : ∀ field ∈ fields, Q field.2) (hnodup : (extra.items.map Prod.fst).Nodup)
    (hextra : Q (.object extra.items)) : Q (.object (fields ++ extra.items)) := by
  refine hQ.object ?_ fun item hitem => ?_
  · rw [List.map_append, hkeys]
    refine List.Nodup.append hdeclared hnodup fun key hkey hkey' => ?_
    obtain ⟨item, hitem, rfl⟩ := List.mem_map.1 hkey'
    exact extra.undeclared item hitem hkey
  · rcases List.mem_append.1 hitem with hitem | hitem
    · exact hfields item hitem
    · exact hQ.values hextra item hitem

omit hQ in
theorem nodup_ofItems {declared : List Text} {items : List (Text × Json)}
    (h : (Json.object items).Valid) :
    ((Extra.ofItems declared items).items.map Prod.fst).Nodup :=
  (valid_object.1 h).1.sublist (List.filter_sublist.map _)

theorem of_ofItems {declared : List Text} {items : List (Text × Json)}
    (hvalid : (Json.object items).Valid) (h : Q (.object items)) :
    Q (.object (Extra.ofItems declared items).items) :=
  hQ.object (nodup_ofItems hvalid) fun item hitem =>
    hQ.values h item (List.mem_filter.1 hitem).1

theorem of_dumpModel {α : Type} {validate : Json → Option α} (dump : α → Json) {v : Json}
    {m : Option α} (h : ∀ a, validate v = some a → Q (dump a))
    (hm : optional validate v = some m) : Q (dumpModel dump m) := by
  cases m with
  | none => exact hQ.null
  | some a =>
    unfold optional at hm
    split at hm
    · cases hm
    · obtain ⟨b, hb, hsame⟩ := Option.map_eq_some_iff.1 hm
      obtain rfl := Option.some.inj hsame
      exact h b hb

theorem of_dumpDict {v : Json} {items : Option (List (Text × Json))} (hv : Q v)
    (h : optional dict v = some items) : Q (dumpDict items) := by
  refine of_dumpModel hQ Json.object (fun a ha => ?_) h
  cases v with
  | scalar => cases ha
  | array => cases ha
  | object items =>
    obtain rfl := Option.some.inj ha
    exact hv

theorem ErrorData.of_dump (e : ErrorData) : Q e.dump := by
  refine hQ.object (of_decide_eq_true rfl) ?_
  simp only [List.forall_mem_cons, of_optional hQ, List.not_mem_nil, false_imp_iff, implies_true,
    and_self]

theorem PacketExecutionSummary.of_dump (s : PacketExecutionSummary) : Q s.dump := by
  have herrors : Q (dumpList ErrorData.dump s.errorData) := by
    cases s.errorData with
    | none => exact hQ.null
    | some l =>
      refine hQ.array.2 fun v hv => ?_
      obtain ⟨e, -, rfl⟩ := List.mem_map.1 hv
      exact e.of_dump hQ
  refine hQ.object (of_decide_eq_true rfl) ?_
  simp only [List.forall_mem_cons, of_optional hQ, of_optionalFlag hQ, herrors, List.not_mem_nil,
    false_imp_iff, implies_true, and_self]

theorem PacketMetaData.of_dump {v : Json} {m : PacketMetaData} (hvalid : v.Valid) (hv : Q v)
    (h : PacketMetaData.validate v = some m) : Q m.dump := by
  unfold PacketMetaData.validate at h
  split at h
  · next items =>
    simp only [Option.bind_eq_bind, Option.bind_eq_some_iff, Option.pure_def,
      Option.some.injEq] at h
    obtain ⟨refId, -, srn, -, enrolmentType, -, pktSource, -, uid, -, rfl⟩ := h
    refine of_extra hQ (by decide) rfl ?_ (nodup_ofItems hvalid) (of_ofItems hQ hvalid hv)
    simp only [fields, List.forall_mem_cons, of_optional hQ, List.not_mem_nil, false_imp_iff,
      implies_true, and_self]
  · cases h

theorem FlowMetaData.of_dump {v : Json} {m : FlowMetaData} (hvalid : v.Valid) (hv : Q v)
    (h : FlowMetaData.validate v = some m) : Q m.dump := by
  unfold FlowMetaData.validate at h
  split at h
  · next items =>
    simp only [Option.bind_eq_bind, Option.bind_eq_some_iff, Option.pure_def,
      Option.some.injEq] at h
    obtain ⟨stage, -, subStage, -, rfl⟩ := h
    refine of_extra hQ (by decide) rfl ?_ (nodup_ofItems hvalid) (of_ofItems hQ hvalid hv)
    simp only [fields, List.forall_mem_cons, of_optional hQ, List.not_mem_nil, false_imp_iff,
      implies_true, and_self]
  · cases h

theorem of_translated {payload : Json} (h : Q payload) :
    Q (translated payload) := by
  have hedata := hQ.item h "edata".toList
  have herrors : Q (listOrNull ((payload.item "edata".toList).item "errorData".toList)) := by
    have hlist := hQ.item hedata "errorData".toList
    revert hlist
    generalize (payload.item "edata".toList).item "errorData".toList = v
    intro hlist
    cases v with
    | array l => exact hlist
    | scalar => exact hQ.null
    | object => exact hQ.null
  refine hQ.object (of_decide_eq_true rfl) ?_
  simp only [List.forall_mem_cons, of_optional hQ, List.not_mem_nil, false_imp_iff, implies_true,
    and_true, true_and]
  refine ⟨?_, ?_, ?_, ?_⟩
  all_goals
    refine hQ.object (of_decide_eq_true rfl) ?_
    simp only [List.forall_mem_cons, of_optional hQ, of_optionalFlag hQ, hQ.text, herrors,
      hQ.item hedata, List.not_mem_nil, false_imp_iff, implies_true, and_self]

theorem of_toMessagePayload {payload : Json} (h : Q payload) :
    Q (toMessagePayload payload) := by
  unfold toMessagePayload
  split
  · exact of_translated hQ h
  · exact h

/-- **What a packet event is dumped as has what the value has that it was read off.** -/
theorem MessagePayload.dump_of_validate {pydantic : Pydantic} {payload : Json}
    {m : MessagePayload} (hvalid : payload.Valid) (hpayload : Q payload)
    (h : MessagePayload.validate pydantic payload = some m) : Q m.dump := by
  have hvalid' := of_toMessagePayload partwise_valid hvalid
  have hvalue := of_toMessagePayload hQ hpayload
  have hread := MessagePayload.readFrom_of_validate h
  have hflow := of_dumpModel hQ FlowMetaData.dump (fun _ =>
    FlowMetaData.of_dump hQ (valid_item hvalid' _) (hQ.item hvalue _)) hread.flowMetaData
  have htask : Q m.taskMetaData := hread.taskMetaData ▸ hQ.item hvalue _
  have hpacket := of_dumpModel hQ PacketMetaData.dump (fun _ =>
    PacketMetaData.of_dump hQ (valid_item hvalid' _) (hQ.item hvalue _)) hread.packetMetaData
  have hreject : Q m.rejectBits := hread.rejectBits ▸ hQ.item hvalue _
  have hresubmission := of_dumpDict hQ (hQ.item hvalue _) hread.resubmissionSummary
  have huids : Q m.uidV2DataArray := hread.uidV2DataArray ▸ hQ.item hvalue _
  refine hQ.object (of_decide_eq_true rfl) ?_
  simp only [fields, List.forall_mem_cons, hQ.text, of_optional hQ, hflow, htask, hpacket,
    hreject, hresubmission, huids, m.packetExecutionSummary.of_dump hQ, List.not_mem_nil,
    false_imp_iff, implies_true, and_self]

end ResidentCrm.Messages
