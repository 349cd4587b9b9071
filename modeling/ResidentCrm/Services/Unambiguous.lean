import ResidentCrm.Services.Resolve

/-!
# A registry that validates

Where the registry reports no error, its exact lookups name one service at most, and both
resolutions return what the first step that names one service says, with the later steps that name
another one as conflicts (`Decides`). They return at all exactly where the `errorData` of the
payload can be read (`resolves_iff_readable`).
-/

namespace ResidentCrm

namespace Services

/-! ## The first step that decides -/

/-- What a step says against the service chosen before it. -/
def dissent (service : Text) (step : Step) : Option (Source × Text) :=
  (step.single.filter (· ≠ service)).map (step.source, ·)

/-- The first step that names exactly one service decides, and the later steps that name another one
are the conflicts; where no step does, the packet is unresolved. -/
def Decides (steps : List Step) (r : ServiceResolution) : Prop :=
  ((∀ step ∈ steps, step.single = none) ∧
    r.service = unresolved ∧ r.source = .none ∧ r.matched = none ∧ r.conflict = []) ∨
  ∃ before step after service, steps = before ++ step :: after ∧
    (∀ x ∈ before, x.single = none) ∧ step.single = some service ∧
    r.service = service ∧ r.source = step.source ∧ r.matched = step.value ∧
    r.conflict = after.filterMap (dissent service)

theorem weigh_of_none {o : Outcome} {step : Step} (h : step.single = none) : o.weigh step = o := by
  unfold Outcome.weigh
  rw [h]

/-- Before a step decides, nothing is recorded. -/
theorem foldl_weigh_of_none {steps : List Step} (h : ∀ step ∈ steps, step.single = none)
    (o : Outcome) : steps.foldl Outcome.weigh o = o := by
  induction steps generalizing o with
  | nil => rfl
  | cons step steps ih =>
    rw [List.foldl_cons, weigh_of_none (h step List.mem_cons_self)]
    exact ih (fun x hx => h x (List.mem_cons_of_mem _ hx)) o

theorem weigh_of_candidate {o : Outcome} {service : Text} (h : o.candidate = some service)
    (step : Step) :
    o.weigh step = { o with conflict := o.conflict ++ (dissent service step).toList } := by
  unfold Outcome.weigh dissent
  cases hsingle : step.single with
  | none => simp
  | some other =>
    simp only [Outcome.consider, h]
    by_cases hother : other = service
    · subst hother
      simp [Option.filter, ← h]
    · simp [Option.filter, hother, ← h]

/-- After a step has decided, the rest adds its conflicts. -/
theorem foldl_weigh_of_candidate {service : Text} (steps : List Step) :
    ∀ o : Outcome, o.candidate = some service → steps.foldl Outcome.weigh o =
      { o with conflict := o.conflict ++ steps.filterMap (dissent service) } := by
  induction steps with
  | nil =>
    intro o _
    simp
  | cons step steps ih =>
    intro o h
    rw [List.foldl_cons, weigh_of_candidate h,
      ih { o with conflict := o.conflict ++ (dissent service step).toList } h,
      List.filterMap_cons]
    cases dissent service step <;> simp

/-- Every step up to the first that names one service, that step, and the rest. -/
theorem exists_first (steps : List Step) : (∀ step ∈ steps, step.single = none) ∨
    ∃ before step after service, steps = before ++ step :: after ∧
      (∀ x ∈ before, x.single = none) ∧ step.single = some service := by
  induction steps with
  | nil => exact .inl nofun
  | cons step steps ih =>
    cases hsingle : step.single with
    | some service => exact .inr ⟨[], step, steps, service, rfl, nofun, hsingle⟩
    | none =>
      rcases ih with ih | ⟨before, x, after, service, rfl, hbefore, hx⟩
      · exact .inl (List.forall_mem_cons.2 ⟨hsingle, ih⟩)
      · exact .inr ⟨step :: before, x, after, service, rfl,
          List.forall_mem_cons.2 ⟨hsingle, hbefore⟩, hx⟩

theorem found_of_single {step : Step} {service : Text} (h : step.single = some service) :
    step.found = [service] := by
  unfold Step.single at h
  split at h
  · next hfound =>
    obtain rfl := Option.some.inj h
    exact hfound
  · cases h

theorem weigh_of_single {step : Step} {service : Text} (h : step.single = some service) :
    Outcome.weigh {} step =
      { candidate := some service, source := step.source, matched := step.value } := by
  simp only [Outcome.weigh, h, Outcome.consider]

theorem resolution_service {o : Outcome} {service : Text} (h : o.candidate = some service)
    (hservice : service ≠ []) (detail : List (String × Option Text)) :
    (o.resolution detail).service = service := by
  simp only [Outcome.resolution, h]
  rw [Option.filter_some_pos (by simpa using hservice), Option.getD_some]

/-- **Weighing the steps decides between them**, where no service has an empty name. -/
theorem decides_weigh {steps : List Step} (hnamed : ∀ step ∈ steps, ∀ s ∈ step.found, s ≠ [])
    (detail : List (String × Option Text)) :
    Decides steps ((steps.foldl Outcome.weigh {}).resolution detail) := by
  rcases exists_first steps with h | ⟨before, step, after, service, rfl, hbefore, hstep⟩
  · rw [foldl_weigh_of_none h]
    exact .inl ⟨h, rfl, rfl, rfl, rfl⟩
  · have hservice : service ≠ [] := by
      refine hnamed step (by simp) service ?_
      rw [found_of_single hstep]
      exact List.mem_singleton_self service
    refine .inr ⟨before, step, after, service, rfl, hbefore, hstep, ?_⟩
    rw [List.foldl_append, foldl_weigh_of_none hbefore, List.foldl_cons, weigh_of_single hstep,
      foldl_weigh_of_candidate after _ rfl]
    exact ⟨resolution_service rfl hservice detail, rfl, rfl, rfl⟩

/-! ## The names of the services -/

/-- Every pack is under a name that is not empty. -/
def Registry.Named (r : Registry) : Prop := ∀ name ∈ r.packs.keys, name ≠ []

theorem isServiceName_ne_nil {s : Text} (h : isServiceName s = true) : s ≠ [] := by
  rintro rfl
  cases h

theorem ne_nil_of_nameErrors {label name : Text} {document : Json}
    (h : nameErrors label name document = []) : name ≠ [] := by
  by_cases hdefault : name = defaultPack
  · rw [hdefault]
    decide
  · simp only [nameErrors, List.append_eq_nil_iff, errorIf_eq_nil] at h
    exact isServiceName_ne_nil (by simpa [hdefault] using h.1.1.1)

section

variable {compile : Text → Option Pattern} {lower : Text → Text}

/-- A pack without an error has a name. -/
theorem parsePack_named {entry : Entry} {label : Text} {document : Json} {p : ServicePack}
    (h : parsePack compile lower entry label document = (some p, [])) : p.name ≠ [] := by
  simp only [parsePack] at h
  split at h
  · cases h
  split at h
  · cases h
  split at h
  · cases h
  obtain ⟨hpack, herrors⟩ := Prod.mk.inj h
  obtain rfl := Option.some.inj hpack
  simp only [List.append_eq_nil_iff] at herrors
  exact ne_nil_of_nameErrors herrors.1.1.1.1.1.2

theorem Registry.Named.addEntry {r : Registry} (h : r.Named) (entry : Entry) :
    (addEntry compile lower r entry).Named := by
  unfold Services.addEntry
  dsimp only
  split
  · exact h
  · next document _ =>
    cases hparse : parsePack compile lower entry (entry.name ++ "/service.json".toList) document with
    | mk pack found =>
      dsimp only
      split
      · next p _ =>
        split
        · next hnil =>
          intro name hname
          rcases AList.mem_insert _ |>.1 hname with rfl | hname
          · obtain rfl : found = [] := (List.append_eq_nil_iff.1 hnil).1
            exact parsePack_named hparse
          · exact h name hname
        · exact h
      · exact h

theorem named_build (entries : List Entry) : (build compile lower entries).Named := by
  have hfold : ∀ (entries : List Entry) (r : Registry), r.Named →
      (entries.foldl (Services.addEntry compile lower) r).Named := by
    intro entries
    induction entries with
    | nil => exact fun r h => h
    | cons entry entries ih => exact fun r h => ih _ (h.addEntry entry)
  exact hfold entries ⟨∅, []⟩ nofun

end

namespace Registry

variable {r : Registry}

theorem Named.having (h : r.Named) {p : ServicePack → Bool} {name : Text}
    (hname : name ∈ r.having p) : name ≠ [] := by
  have hservices := (List.mem_filter.1 hname).1
  rw [services, List.mem_insertionSort] at hservices
  exact h name (List.mem_filter.1 hservices).1

theorem Named.byJavaPackage (h : r.Named) {name : Text} :
    ∀ {frames : List Text}, name ∈ (r.byJavaPackage frames).1 → name ≠ []
  | [], hname => nomatch hname
  | frame :: frames, hname => by
    simp only [Registry.byJavaPackage] at hname
    split at hname
    · exact h.having hname
    · exact h.byJavaPackage hname

theorem Named.stageServices (h : r.Named) {lower : Text → Text} {stage subStage : Option Text}
    {name : Text} (hname : name ∈ stageServices lower r stage subStage) : name ≠ [] := by
  cases stage with
  | none => cases hname
  | some stage => exact h.having hname

theorem Named.elim (h : r.Named) {value : Option Text} {p : Text → ServicePack → Bool}
    {name : Text} (hname : name ∈ value.elim [] fun v => r.having (p v)) : name ≠ [] := by
  cases value with
  | none => cases hname
  | some v => exact h.having hname

theorem Named.documentedBy (h : r.Named) {docs : Docs} {code : Option Text} {name : Text}
    (hname : name ∈ documentedBy docs r code) : name ≠ [] := by
  cases code with
  | none => cases hname
  | some code =>
    obtain ⟨stem, hstem, rfl⟩ := List.mem_map.1 (mem_dedup_insertionSort.1 hname)
    unfold serviceForDocsFile
    cases hhead : (r.having fun p => p.reasonCodeDocsFile = stem).head? with
    | none => exact docs.named code stem hstem
    | some service => exact h.having (List.mem_of_mem_head? hhead)

end Registry

theorem ServiceMap.ne_nil {m : ServiceMap} {code : Option Text} {name : Text}
    (hname : name ∈ m.servicesFor code) : name ≠ [] := by
  unfold servicesFor at hname
  cases hlookup : code.bind (m.byCode.lookup ·) with
  | none =>
    rw [hlookup] at hname
    cases hname
  | some services =>
    rw [hlookup] at hname
    obtain ⟨code, -, hlookup⟩ := Option.bind_eq_some_iff.1 hlookup
    obtain ⟨before, after, hcodes, -⟩ := List.lookup_eq_some_iff.1 hlookup
    exact m.named (code, services) (hcodes ▸ by simp) name hname

/-! ## Both resolutions -/

section

variable (lower : Text → Text) (r : Registry) (docs : Docs)

/-- The stage or, where it names no single service, the topic. -/
def payloadStep (payload : Json) : Step :=
  let flow := payload.item "flowMetaData".toList
  let stage := textAt "stage" flow
  let topic := textAt "sourceTopic" payload
  let byStage : Step :=
    ⟨.flowStage, stage, stageServices lower r stage (textAt "subStage" flow)⟩
  if byStage.single.isSome then byStage else ⟨.sourceTopic, topic, topic.elim [] r.byTopic⟩

/-- The steps of `resolve`, in their order. -/
def resolveSteps (serviceMap : ServiceMap) (payload : Json) (code : Option Text) : List Step :=
  [⟨.reasonCodeMap, code, serviceMap.servicesFor code⟩, payloadStep lower r payload,
    ⟨.reasonCodeDocs, code, documentedBy docs r code⟩]

theorem weigh_mk (o : Outcome) (source : Source) (value : Option Text) (found : List Text) :
    o.weigh ⟨source, value, found⟩ =
      match found with
      | [service] => o.consider source service value
      | _ => o := by
  unfold Outcome.weigh Step.single
  rcases found with _ | ⟨service, _ | ⟨other, rest⟩⟩ <;> rfl

/-- The stage, else the topic, is one step. -/
theorem weigh_payloadStep (o : Outcome) (payload : Json) :
    o.weigh (payloadStep lower r payload) =
      match (match stageServices lower r (textAt "stage" (payload.item "flowMetaData".toList))
          (textAt "subStage" (payload.item "flowMetaData".toList)) with
        | [service] => some (Source.flowStage, service,
            textAt "stage" (payload.item "flowMetaData".toList))
        | _ => match (textAt "sourceTopic" payload).elim [] r.byTopic with
          | [service] => some (Source.sourceTopic, service, textAt "sourceTopic" payload)
          | _ => none) with
      | some (source, service, value) => o.consider source service value
      | none => o := by
  unfold payloadStep
  dsimp only
  generalize stageServices lower r (textAt "stage" (payload.item "flowMetaData".toList))
    (textAt "subStage" (payload.item "flowMetaData".toList)) = byStage
  generalize (textAt "sourceTopic" payload).elim [] r.byTopic = byTopic
  rcases byStage with _ | ⟨service, _ | ⟨other, rest⟩⟩
  · rcases byTopic with _ | ⟨service, _ | ⟨other, rest⟩⟩ <;> rfl
  · rfl
  · rcases byTopic with _ | ⟨service, _ | ⟨other, rest⟩⟩ <;> rfl

/-- `resolve` weighs its steps. -/
theorem resolve_eq (serviceMap : ServiceMap) (payload : Json) :
    ∃ detail : Option Text → List (String × Option Text),
      resolve lower r docs serviceMap payload = (reasonCodeOf payload).map fun code =>
        ((resolveSteps lower r docs serviceMap payload code).foldl Outcome.weigh {}).resolution
          (detail code) := by
  refine ⟨fun code => [("stage", textAt "stage" (payload.item "flowMetaData".toList)),
    ("sub_stage", textAt "subStage" (payload.item "flowMetaData".toList)),
    ("source_topic", textAt "sourceTopic" payload), ("reason_code", code)], ?_⟩
  unfold resolve
  cases reasonCodeOf payload with
  | none => rfl
  | some code =>
    simp only [resolveSteps, List.foldl_cons, List.foldl_nil, weigh_payloadStep, weigh_mk]
    rfl

end

/-! ## Where they return -/

/-- A number other than zero, finite or not, or `true`. -/
def uniterable : Json → Bool
  | .scalar (.number n) => !(Json.scalar (.number n)).isFalsy
  | .scalar (.nonFinite _) => true
  | .scalar (.bool b) => b
  | _ => false

theorem isSome_elements (value : Json) :
    (elements value).isSome = true ↔ uniterable value = false := by
  unfold elements
  rcases value with (_ | b | n | x | s) | l | items
  · decide
  · cases b <;> decide
  · rw [uniterable, Bool.not_eq_false']
    split <;> simp [*]
  · cases x <;> decide
  · split <;> simp [uniterable]
  · split <;> simp [uniterable]
  · split <;> simp [uniterable]

/-- The `errorData` of the payload, if there is one, is no number other than zero and not `true`. -/
def Readable (payload : Json) : Prop :=
  uniterable ((payload.item "packetExecutionSummary".toList).item "errorData".toList) = false

instance : DecidablePred Readable := fun _ => inferInstanceAs (Decidable (_ = false))

theorem isSome_reasonCodeOf (payload : Json) :
    (reasonCodeOf payload).isSome = true ↔ Readable payload := by
  unfold reasonCodeOf Readable
  dsimp only
  split
  · rw [Option.isSome_map]
    exact isSome_elements _
  · next hobject =>
    refine iff_of_true rfl ?_
    cases hsummary : payload.item "packetExecutionSummary".toList with
    | object items =>
      rw [hsummary] at hobject
      exact absurd rfl hobject
    | scalar v | array l => rfl

section

variable {lower : Text → Text} {r : Registry} {docs : Docs}

theorem resolve_iff_readable (h : r.Named) (serviceMap : ServiceMap) (payload : Json) :
    (∃ result, resolve lower r docs serviceMap payload = some result ∧
      Decides (resolveSteps lower r docs serviceMap payload (reasonCodeOf payload).join) result) ↔
      Readable payload := by
  obtain ⟨detail, hresolve⟩ := resolve_eq lower r docs serviceMap payload
  rw [← isSome_reasonCodeOf, hresolve]
  cases reasonCodeOf payload with
  | none => simp
  | some code =>
    refine iff_of_true ⟨_, rfl, decides_weigh (fun step hstep s hs => ?_) _⟩ rfl
    simp only [resolveSteps, List.mem_cons, List.not_mem_nil, or_false] at hstep
    rcases hstep with rfl | rfl | rfl
    · exact ServiceMap.ne_nil hs
    · unfold payloadStep at hs
      dsimp only at hs
      split at hs
      · exact h.stageServices hs
      · exact h.elim hs
    · exact h.documentedBy hs

theorem resolveDlt_iff_readable (h : r.Named) (record : DltRecord) :
    (∃ result, resolveDlt lower r docs record = some result ∧
      Decides (dltSteps lower r docs record (reasonCodeOf record.payload).join) result) ↔
      Readable record.payload := by
  rw [← isSome_reasonCodeOf]
  unfold resolveDlt
  cases reasonCodeOf record.payload with
  | none => simp
  | some code =>
    refine iff_of_true ⟨_, rfl, decides_weigh (fun step hstep s hs => ?_) _⟩ rfl
    simp only [dltSteps, List.mem_cons, List.not_mem_nil, or_false] at hstep
    rcases hstep with rfl | rfl | rfl | rfl | rfl | rfl
    · exact h.elim hs
    · exact h.stageServices hs
    · exact h.elim hs
    · exact h.byJavaPackage hs
    · exact h.elim hs
    · exact h.documentedBy hs

end

/-- **A registry that validates resolves without ambiguity**: one service at most for a stage, a
consumer group and the frames of a trace, and both resolutions return what their first deciding step
says exactly where the `errorData` of the payload can be read. -/
theorem resolves_iff_readable (compile : Text → Option Pattern) (lower : Text → Text)
    (entries : List Entry) (docs : Docs) (h : (build compile lower entries).errors = []) :
    (∀ stage subStage, ((build compile lower entries).byStage stage subStage).length ≤ 1) ∧
    (∀ group, ((build compile lower entries).byConsumerGroup group).length ≤ 1) ∧
    (∀ frames, ((build compile lower entries).byJavaPackage frames).1.length ≤ 1) ∧
    (∀ serviceMap payload,
      (∃ result, resolve lower (build compile lower entries) docs serviceMap payload = some result ∧
        Decides (resolveSteps lower (build compile lower entries) docs serviceMap payload
          (reasonCodeOf payload).join) result) ↔ Readable payload) ∧
    ∀ record : DltRecord,
      (∃ result, resolveDlt lower (build compile lower entries) docs record = some result ∧
        Decides (dltSteps lower (build compile lower entries) docs record
          (reasonCodeOf record.payload).join) result) ↔ Readable record.payload := by
  have hvalid : checkRegistry (build compile lower entries).packs = [] :=
    (List.append_eq_nil_iff.1 h).2
  have hnamed : (build compile lower entries).Named := named_build entries
  exact ⟨Registry.byStage_length_le hvalid, Registry.byConsumerGroup_length_le hvalid,
    Registry.byJavaPackage_length_le hvalid, resolve_iff_readable hnamed,
    resolveDlt_iff_readable hnamed⟩

/-! ## A record that cannot be resolved -/

/-- A pack that gives what every pack must, and the fields given. -/
def packDocument (service : String) (fields : List (String × Json)) : Json :=
  .object ([("schema_version".toList, .nat 1), ("service".toList, .text service.toList),
    ("display_name".toList, .text service.toList), ("rule_source".toList, .object [])] ++
    fields.map fun field => (field.1.toList, field.2))

/-- The default pack, and one for a stage and a consumer group. -/
def twoPacks : List Entry :=
  [⟨defaultPack, some (packDocument "_default" [("match", .object [])]), []⟩,
    ⟨"enu-biometric".toList, some (packDocument "enu-biometric"
      [("tool_prefix", .text "enu".toList),
        ("match", .object [("stages".toList, .array [.text "BIOMETRIC".toList])]),
        ("dlt", .object [("consumer_groups".toList, .array [.text "enu-dlt".toList])])]), []⟩]

/-- Patterns without an operator match themselves. -/
def literal (pattern : Text) : Option Pattern := some (· = pattern)

def noDocs : Docs := ⟨fun _ => [], nofun⟩

/-- A record of the consumer group whose payload counts its errors. -/
def countedErrors (n : Json) : DltRecord where
  payload := .object [("packetExecutionSummary".toList, .object [("errorData".toList, n)])]
  consumerGroup := some "enu-dlt".toList

theorem twoPacks_valid : (build literal Text.lower twoPacks).errors = [] := by decide +kernel

/-- **The registry validates, and a record whose consumer group names a service is not resolved.** -/
theorem counted_errors_unresolved :
    (build literal Text.lower twoPacks).errors = [] ∧
    ¬ ∃ result, resolveDlt Text.lower (build literal Text.lower twoPacks) noDocs
        (countedErrors (.nat 5)) = some result ∧
      Decides (dltSteps Text.lower (build literal Text.lower twoPacks) noDocs
        (countedErrors (.nat 5)) (reasonCodeOf (countedErrors (.nat 5)).payload).join) result :=
  ⟨twoPacks_valid, fun h =>
    absurd ((resolveDlt_iff_readable (named_build twoPacks) (countedErrors (.nat 5))).1 h)
      (by decide)⟩

/-- With a list instead, it is. -/
theorem listed_errors_resolved :
    ∃ result, resolveDlt Text.lower (build literal Text.lower twoPacks) noDocs
        (countedErrors (.array [])) = some result ∧
      Decides (dltSteps Text.lower (build literal Text.lower twoPacks) noDocs
        (countedErrors (.array [])) (reasonCodeOf (countedErrors (.array [])).payload).join)
        result :=
  ((resolves_iff_readable literal Text.lower twoPacks noDocs twoPacks_valid).2.2.2.2
    (countedErrors (.array []))).2 (by decide)

end Services

end ResidentCrm
