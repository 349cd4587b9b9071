import ResidentCrm.Services.MapOnDisk
import ResidentCrm.Services.Unambiguous

/-!
# Which packets the map places

`resolve` over what `current` returns. The map places a packet only with the one service that some
file on disk has listed its reason code under (`placed_by_map`), and does place it where every file
that `current` may have seen lists the code under that service alone (`placed_where_listed`).
-/

namespace ResidentCrm.Services

/-! ## The first step of a resolution -/

/-- The source is that of a step that names a service. -/
theorem source_of_foldl_weigh (steps : List Step) :
    (steps.foldl Outcome.weigh {}).source = .none ∨ ∃ step ∈ steps, step.single.isSome ∧
      (steps.foldl Outcome.weigh {}).source = step.source := by
  rcases exists_first steps with h | ⟨before, step, after, service, rfl, hbefore, hstep⟩
  · rw [foldl_weigh_of_none h]
    exact .inl rfl
  · refine .inr ⟨step, by simp, by rw [hstep]; rfl, ?_⟩
    rw [List.foldl_append, foldl_weigh_of_none hbefore, List.foldl_cons, weigh_of_single hstep,
      foldl_weigh_of_candidate after _ rfl]

theorem payloadStep_source (lower : Text → Text) (r : Registry) (payload : Json) :
    (payloadStep lower r payload).source = .flowStage ∨
      (payloadStep lower r payload).source = .sourceTopic := by
  unfold payloadStep
  dsimp only
  split
  · exact .inl rfl
  · exact .inr rfl

section

variable {lower : Text → Text} {r : Registry} {docs : Docs} {m : ServiceMap} {payload : Json}
  {result : ServiceResolution}

/-- Where the map gives one service for the code, that service it is. -/
theorem resolve_of_mapped (h : resolve lower r docs m payload = some result) {code service : Text}
    (hcode : reasonCodeOf payload = some (some code))
    (hmap : m.servicesFor (some code) = [service]) :
    result.service = service ∧ result.source = .reasonCodeMap ∧ result.matched = some code := by
  have hmem : service ∈ m.servicesFor (some code) := by
    rw [hmap]
    exact List.mem_singleton_self service
  have hservice : service ≠ [] := ServiceMap.ne_nil hmem
  obtain ⟨detail, hresolve⟩ := resolve_eq lower r docs m payload
  rw [hresolve, hcode, Option.map_some] at h
  obtain rfl := Option.some.inj h
  have hsingle : Step.single ⟨.reasonCodeMap, some code, m.servicesFor (some code)⟩ =
      some service := by
    rw [hmap]
    rfl
  unfold resolveSteps
  rw [List.foldl_cons, weigh_of_single hsingle, foldl_weigh_of_candidate _ _ rfl]
  exact ⟨resolution_service rfl hservice _, rfl, rfl⟩

/-- Where the map decided, it gives one service for the code. -/
theorem mapped_of_resolve (h : resolve lower r docs m payload = some result)
    (hsource : result.source = .reasonCodeMap) : ∃ code service,
      reasonCodeOf payload = some (some code) ∧ m.servicesFor (some code) = [service] := by
  obtain ⟨detail, hresolve⟩ := resolve_eq lower r docs m payload
  rw [hresolve] at h
  obtain ⟨code, hcode, rfl⟩ := Option.map_eq_some_iff.1 h
  have hfold : ((resolveSteps lower r docs m payload code).foldl Outcome.weigh {}).source =
      .reasonCodeMap := hsource
  rcases source_of_foldl_weigh (resolveSteps lower r docs m payload code) with
    hnone | ⟨step, hstep, hsingle, hsame⟩
  · rw [hnone] at hfold
    cases hfold
  · rw [hsame] at hfold
    obtain ⟨service, hservice⟩ := Option.isSome_iff_exists.1 hsingle
    simp only [resolveSteps, List.mem_cons, List.not_mem_nil, or_false] at hstep
    rcases hstep with rfl | rfl | rfl
    · have hfound := found_of_single hservice
      cases code with
      | none => cases hfound
      | some code => exact ⟨code, service, hcode, hfound⟩
    · rcases payloadStep_source lower r payload with hs | hs
      · rw [hs] at hfold
        cases hfold
      · rw [hs] at hfold
        cases hfold
    · cases hfold

end

/-! ## What a file says of one code -/

section

variable {κ : Type} {decode : κ → Option Text} {digest : κ → Text} {raw : κ}

/-- The file is well formed and lists the code under this service and no other. -/
def ListsUnder (decode : κ → Option Text) (raw : κ) (code service : Text) : Prop :=
  ∃ document services, ReadAs decode raw document services ∧ WellFormed document services ∧
    ∀ name, (∃ codes, (name, .array codes) ∈ services ∧ Json.text code ∈ codes) ↔ name = service

theorem ReadAs.unique {document services document' services' : List (Text × Json)}
    (h : ReadAs decode raw document services) (h' : ReadAs decode raw document' services') :
    services = services' := by
  obtain ⟨text, hdecode, hloads⟩ := h.reads
  obtain ⟨text', hdecode', hloads'⟩ := h'.reads
  rw [hdecode] at hdecode'
  obtain rfl := Option.some.inj hdecode'
  rw [hloads] at hloads'
  injection hloads' with hdocument
  injection hdocument with hdocument
  subst hdocument
  have hservices := h.services.symm.trans h'.services
  injection hservices

theorem eq_singleton {l : List Text} {a : Text} (hl : l.Pairwise (· < ·))
    (h : ∀ x, x ∈ l ↔ x = a) : l = [a] := by
  have hnodup : l.Nodup := hl.imp fun hlt => ne_of_lt hlt
  have hperm : l.Perm [a] := by
    rw [List.perm_ext_iff_of_nodup hnodup (List.nodup_singleton a)]
    intro x
    rw [h, List.mem_singleton]
  exact List.perm_singleton.1 hperm

theorem servicesFor_eq_singleton {file : MapFile} (h : (parse decode digest raw).1 = some file)
    (code service : Text) :
    file.map.servicesFor (some code) = [service] ↔ ListsUnder decode raw code service := by
  obtain ⟨document, services, hread, hwell, -, -, hcodes⟩ := listed_of_parse h
  obtain ⟨hsorted, hmem⟩ := hcodes code
  constructor
  · intro hmap
    refine ⟨document, services, hread, hwell, fun name => ?_⟩
    rw [← hmem name, hmap, List.mem_singleton]
  · rintro ⟨document', services', hread', -, hsole⟩
    obtain rfl := hread.unique hread'
    exact eq_singleton hsorted fun name => (hmem name).trans (hsole name)

end

/-! ## Over what `current` returns -/

namespace MapOnDisk

section

variable {ι σ κ : Type} [DecidableEq ι] [DecidableEq σ] [DecidableEq κ]
  {decode : κ → Option Text} {digest : κ → Text} {s : State ι σ κ MapFile} {i : ι} {map : MapFile}
  {lower : Text → Text} {r : Registry} {docs : Docs} {payload : Json} {result : ServiceResolution}

/-- **A packet that the map places is placed with the one service that a file on disk listed its
reason code under**, however threads, downloads, edits and failures interleave. -/
theorem placed_by_map (hs : (reasonCodeMap decode digest ι).Reachable s)
    (hanswer : s.threads i = .answered map)
    (h : resolve lower r docs map.map payload = some result)
    (hsource : result.source = .reasonCodeMap) :
    ∃ file code, some file ∈ s.disk ∧ reasonCodeOf payload = some (some code) ∧
      result.matched = some code ∧ ListsUnder decode file.content code result.service := by
  obtain ⟨code, service, hcode, hmap⟩ := mapped_of_resolve h hsource
  obtain ⟨rfl, -, hmatched⟩ := resolve_of_mapped h hcode hmap
  rcases (answers_served hs).1 i map hanswer with rfl | ⟨file, hfile, hparse⟩
  · cases hmap
  · exact ⟨file, code, hfile, hcode, hmatched, (servicesFor_eq_singleton hparse _ _).1 hmap⟩

/-- **A packet is placed by the map where every file there was during the call lists its reason code
under one service alone, the same one**, as long as every stat and read is answered and no
signature comes twice. -/
theorem placed_where_listed
    (hs : (reasonCodeMap decode digest ι).Reach (fun s a => undisturbed s a = true) s)
    (hanswer : s.threads i = .answered map)
    (h : resolve lower r docs map.map payload = some result) {code service : Text}
    (hcode : reasonCodeOf payload = some (some code))
    (hlists : ∀ file ∈ s.disk.take (s.disk.length + 1 - s.began i),
      ∃ f, file = some f ∧ ListsUnder decode f.content code service) :
    result.service = service ∧ result.source = .reasonCodeMap ∧ result.matched = some code := by
  obtain ⟨file, hfile, hshows⟩ := answers_fresh hs hanswer
  obtain ⟨f, rfl, hf⟩ := hlists file hfile
  have hsome : (parse decode digest f.content).1.isSome := by
    obtain ⟨document, services, hread, hwell, -⟩ := hf
    exact isSome_parse digest hread hwell
  obtain ⟨m, hparse⟩ := Option.isSome_iff_exists.1 hsome
  have hmap : map = m := hshows.present f rfl m hparse
  rw [← hmap] at hparse
  exact resolve_of_mapped h hcode ((servicesFor_eq_singleton hparse code service).2 hf)

end

/-- A packet rejected with the code of `oneOwner`. -/
def rejectedForA : Json :=
  .object [("packetExecutionSummary".toList, .object [("errorData".toList,
    .array [.object [("errorReasonCode".toList, .text ['A'])]])])]

theorem reasonCodeOf_rejectedForA : reasonCodeOf rejectedForA = some (some ['A']) := by
  decide +kernel

theorem exists_resolved (m : ServiceMap) :
    ∃ result, resolve Text.lower (build literal Text.lower twoPacks) noDocs m rejectedForA =
      some result := by
  obtain ⟨detail, hresolve⟩ :=
    resolve_eq Text.lower (build literal Text.lower twoPacks) noDocs m rejectedForA
  rw [hresolve, reasonCodeOf_rejectedForA]
  exact ⟨_, rfl⟩

theorem listsUnder_oneOwner : ListsUnder some oneOwner ['A'] "qc".toList := by
  have htest : (parse some id oneOwner).1.any
      (·.map.servicesFor (some ['A']) = ["qc".toList]) = true := by
    decide +kernel
  obtain ⟨file, hfile, hservices⟩ := (Option.any_eq_true _ _).1 htest
  exact (servicesFor_eq_singleton hfile _ _).1 (of_decide_eq_true hservices)

theorem refreshed_placed_by_map : ∃ (s : State Unit ℕ Text MapFile) (map : MapFile)
    (result : ServiceResolution), s.threads () = .answered map ∧
    resolve Text.lower (build literal Text.lower twoPacks) noDocs map.map rejectedForA =
      some result ∧
    ∃ file code, some file ∈ s.disk ∧ reasonCodeOf rejectedForA = some (some code) ∧
      result.matched = some code ∧ ListsUnder some file.content code result.service := by
  obtain ⟨s, hs, map, hanswer, hservices, -⟩ := exists_refreshed
  obtain ⟨result, hresult⟩ := exists_resolved map.map
  have hsource := (resolve_of_mapped hresult reasonCodeOf_rejectedForA hservices).2.1
  exact ⟨s, map, result, hanswer, hresult,
    placed_by_map hs.reachable hanswer hresult hsource⟩

theorem refreshed_placed_where_listed : ∃ (s : State Unit ℕ Text MapFile) (map : MapFile)
    (result : ServiceResolution), s.threads () = .answered map ∧
    resolve Text.lower (build literal Text.lower twoPacks) noDocs map.map rejectedForA =
      some result ∧
    result.service = "qc".toList ∧ result.source = .reasonCodeMap ∧
      result.matched = some ['A'] := by
  obtain ⟨s, hs, map, hanswer, -, hwindow⟩ := exists_refreshed
  obtain ⟨result, hresult⟩ := exists_resolved map.map
  refine ⟨s, map, result, hanswer, hresult,
    placed_where_listed hs hanswer hresult reasonCodeOf_rejectedForA fun file hfile => ?_⟩
  obtain ⟨f, rfl, hcontent⟩ := hwindow file hfile
  exact ⟨f, rfl, hcontent ▸ listsUnder_oneOwner⟩

end MapOnDisk

end ResidentCrm.Services
