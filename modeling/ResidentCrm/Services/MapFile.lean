import ResidentCrm.Lib.JsonUnique
import ResidentCrm.Services.Resolve

/-!
# The file of the reason-code service map

`parse` of `utils/reason_code_service_map.py`. A file is taken whole or not at all; a code it lists
under several services belongs to all of them, and then places nothing. `decode` is strict UTF-8.
Of the spellings of 1 there are those that `isOne` reads, and the label that each error begins with
is left out.
-/

namespace ResidentCrm.Services

universe u

/-- `REASON_CODE_PATTERN`; `$` matches before a last line feed too. -/
def isReasonCode (s : Text) : Bool :=
  1 ≤ (atEnd s).length && (atEnd s).length ≤ 128 &&
    (atEnd s).all fun c => c.isAlphanum || c ∈ "_.:-".toList

inductive MapError where
  | notUtf8
  /-- No JSON, or an object that repeats a key. -/
  | notJson
  | notAnObject
  | unknownKeys (keys : List Text)
  | schemaVersion (value : Json)
  | services
  | badName (service : Text)
  | notAList (service : Text)
  | badCode (service : Text) (code : Json)

inductive MapWarning where
  | twice (service code : Text)
  | several (code : Text) (services : List Text)

theorem ne_nil_of_isServiceName {s : Text} (h : isServiceName s = true) : s ≠ [] := by
  rintro rfl
  cases h

namespace ServiceMap

/-- `owners.setdefault(code, []).append(service)` -/
def add (m : ServiceMap) (code service : Text) (h : service ≠ []) : ServiceMap where
  byCode := setItem code ((m.byCode.lookup code).getD [] ++ [service]) m.byCode
  named entry hentry := by
    have hnamed : ∀ services, (∃ key, (key, services) ∈ m.byCode) → ∀ s ∈ services, s ≠ [] :=
      fun services ⟨key, hkey⟩ => m.named (key, services) hkey
    refine forall_setItem (P := fun services => ∀ s ∈ services, s ≠ []) ?_
      (fun item hitem => m.named item hitem) entry hentry
    intro s hs
    rcases List.mem_append.1 hs with hs | hs
    · cases hlookup : m.byCode.lookup code with
      | none =>
        rw [hlookup] at hs
        cases hs
      | some services =>
        rw [hlookup] at hs
        exact hnamed services ⟨code, mem_of_lookup hlookup⟩ s hs
    · rw [List.mem_singleton.1 hs]
      exact h

/-- `{code: tuple(sorted(names)) for code, names in owners.items()}` -/
def sorted (m : ServiceMap) : ServiceMap where
  byCode := m.byCode.map fun entry => (entry.1, entry.2.insertionSort (· ≤ ·))
  named entry hentry s hs := by
    obtain ⟨old, hold, rfl⟩ := List.mem_map.1 hentry
    exact m.named old hold s ((List.perm_insertionSort _ _).mem_iff.1 hs)

def none : ServiceMap := ⟨[], fun _ hentry => absurd hentry List.not_mem_nil⟩

theorem servicesFor_add (m : ServiceMap) (code service name : Text) (h : service ≠ []) :
    (m.add code service h).servicesFor (some name) =
      if name = code then m.servicesFor (some code) ++ [service]
      else m.servicesFor (some name) := by
  show ((setItem _ _ _).lookup name).getD [] = _
  rw [lookup_setItem]
  split
  · rfl
  · rfl

theorem lookup_map_snd {α β : Type} (f : α → β) (items : List (Text × α)) (key : Text) :
    (items.map fun item => (item.1, f item.2)).lookup key = (items.lookup key).map f := by
  induction items with
  | nil => rfl
  | cons item items ih =>
    obtain ⟨name, value⟩ := item
    rw [List.map_cons, lookup_cons_if, lookup_cons_if, ih]
    split
    · rfl
    · rfl

theorem servicesFor_sorted (m : ServiceMap) (code : Text) :
    m.sorted.servicesFor (some code) = (m.servicesFor (some code)).insertionSort (· ≤ ·) := by
  show ((m.byCode.map _).lookup code).getD [] = ((m.byCode.lookup code).getD []).insertionSort _
  rw [lookup_map_snd]
  cases m.byCode.lookup code with
  | none => rfl
  | some services => rfl

end ServiceMap

/-! ## The services and their codes -/

structure Scan where
  errors : List MapError
  warnings : List MapWarning
  owners : ServiceMap

namespace Scan

/-- One code of a service; the codes it has listed so far are beside the scan. -/
def addCode (service : Text) (h : service ≠ []) (st : Scan × List Text) (code : Json) :
    Scan × List Text :=
  match code.string.filter isReasonCode with
  | none => ({ st.1 with errors := st.1.errors ++ [.badCode service code] }, st.2)
  | some c =>
    if c ∈ st.2 then ({ st.1 with warnings := st.1.warnings ++ [.twice service c] }, st.2)
    else ({ st.1 with owners := st.1.owners.add c service h }, c :: st.2)

def addService (scan : Scan) (entry : Text × Json) : Scan :=
  if h : isServiceName entry.1 = true then
    match entry.2 with
    | .array codes =>
      (codes.foldl (addCode entry.1 (ne_nil_of_isServiceName h)) (scan, [])).1
    | _ => { scan with errors := scan.errors ++ [.notAList entry.1] }
  else { scan with errors := scan.errors ++ [.badName entry.1] }

end Scan

/-- `ServiceMap` of the source: the map, its services and the digest of its file. -/
structure MapFile where
  map : ServiceMap
  services : List Text
  sha256 : Option Text

def EMPTY : MapFile := ⟨.none, [], none⟩

def mapFileKeys : List Text := keys ["schema_version", "description", "services"]

/-- The errors of the object itself. -/
def documentErrors (document : List (Text × Json)) : List MapError :=
  let unknown := (document.map Prod.fst).filter (· ∉ mapFileKeys)
  (if unknown = [] then [] else [.unknownKeys (unknown.insertionSort (· ≤ ·))]) ++
    (if isOne ((Json.object document).item "schema_version".toList) then []
      else [.schemaVersion ((Json.object document).item "schema_version".toList)])

/-- The warnings about codes with several services. -/
def severalWarnings (m : ServiceMap) : List MapWarning :=
  ((m.byCode.insertionSort fun a b => a.1 ≤ b.1).filter fun entry => 1 < entry.2.length).map
    fun entry => .several entry.1 (entry.2.insertionSort (· ≤ ·))

section

-- the bytes, their decoding and `"sha256:" + hashlib.sha256(raw).hexdigest()`
variable {κ : Type u} (decode : κ → Option Text) (digest : κ → Text)

def parse (raw : κ) : Option MapFile × List MapError × List MapWarning :=
  match decode raw with
  | none => (none, [.notUtf8], [])
  | some text =>
    match loadsUnique text with
    | none => (none, [.notJson], [])
    | some (.object document) =>
      match (Json.object document).item "services".toList with
      | .object services =>
        let scan := services.foldl Scan.addService ⟨documentErrors document, [], .none⟩
        if scan.errors.isEmpty then
          (some ⟨scan.owners.sorted, (services.map Prod.fst).insertionSort (· ≤ ·),
              some (digest raw)⟩,
            [], scan.warnings ++ severalWarnings scan.owners)
        else (none, scan.errors, scan.warnings)
      | _ => (none, documentErrors document ++ [.services], [])
    | some _ => (none, [.notAnObject], [])

end

/-! ## What is listed -/

theorem string_eq_some {v : Json} {c : Text} : v.string = some c ↔ v = .text c := by
  constructor
  · intro h
    cases v with
    | scalar v =>
      cases v with
      | string t =>
        obtain rfl := Option.some.inj h
        rfl
      | null => cases h
      | bool => cases h
      | number => cases h
      | nonFinite => cases h
    | array => cases h
    | object => cases h
  · rintro rfl
    rfl

/-- The value is a reason code. -/
def IsCode (v : Json) : Prop := ∃ c, v = .text c ∧ isReasonCode c = true

theorem filter_eq_some {v : Json} {c : Text} :
    v.string.filter isReasonCode = some c ↔ v = .text c ∧ isReasonCode c = true := by
  rw [Option.filter_eq_some_iff, string_eq_some]

theorem filter_eq_none {v : Json} (h : v.string.filter isReasonCode = none) : ¬ IsCode v := by
  rintro ⟨c, hc⟩
  rw [filter_eq_some.2 hc] at h
  cases h

theorem text_inj {a b : Text} (h : Json.text a = Json.text b) : a = b := by
  injection h with h
  injection h

namespace Scan

/-- What codes of a service do to a scan. -/
structure Added (service : Text) (codes : List Json) (st r : Scan × List Text) : Prop where
  errors : r.1.errors = [] ↔ st.1.errors = [] ∧ ∀ code ∈ codes, IsCode code
  seen : ∀ c, c ∈ r.2 ↔ c ∈ st.2 ∨ Json.text c ∈ codes ∧ isReasonCode c = true
  mem : ∀ c s, s ∈ r.1.owners.servicesFor (some c) ↔ s ∈ st.1.owners.servicesFor (some c) ∨
    s = service ∧ c ∉ st.2 ∧ Json.text c ∈ codes ∧ isReasonCode c = true
  nodup : (∀ c, (st.1.owners.servicesFor (some c)).Nodup ∧
      (service ∈ st.1.owners.servicesFor (some c) → c ∈ st.2)) →
    ∀ c, (r.1.owners.servicesFor (some c)).Nodup ∧
      (service ∈ r.1.owners.servicesFor (some c) → c ∈ r.2)

variable {service : Text} {h : service ≠ []} {st r u : Scan × List Text} {codes rest : List Json}

theorem Added.nil : Added service [] st st where
  errors := by simp
  seen := by simp
  mem := by simp
  nodup h := h

theorem Added.trans (hfirst : Added service codes st r) (hrest : Added service rest r u) :
    Added service (codes ++ rest) st u where
  errors := by
    rw [hrest.errors, hfirst.errors, List.forall_mem_append, and_assoc]
  seen c := by
    rw [hrest.seen, hfirst.seen, List.mem_append]
    tauto
  mem c s := by
    rw [hrest.mem, hfirst.mem, hfirst.seen, List.mem_append]
    tauto
  nodup h := hrest.nodup (hfirst.nodup h)

theorem added_addCode (code : Json) : Added service [code] st (addCode service h st code) := by
  unfold addCode
  split
  · next hnone =>
    have hcode := filter_eq_none hnone
    have hno : ∀ c, ¬ (Json.text c = code ∧ isReasonCode c = true) := by
      rintro c ⟨rfl, hc⟩
      exact hcode ⟨c, rfl, hc⟩
    constructor
    · simp [hcode]
    · intro c
      rw [List.mem_singleton]
      exact (or_iff_left (hno c)).symm
    · intro c s
      rw [List.mem_singleton]
      exact (or_iff_left fun hright => hno c ⟨hright.2.2.1, hright.2.2.2⟩).symm
    · exact id
  · next c hsome =>
    obtain ⟨rfl, hc⟩ := filter_eq_some.1 hsome
    have hcode : IsCode (.text c) := ⟨c, rfl, hc⟩
    split
    · next hseen =>
      constructor
      · simp [hcode]
      · intro d
        rw [List.mem_singleton]
        refine (or_iff_left_of_imp ?_).symm
        rintro ⟨hsame, -⟩
        rw [text_inj hsame]
        exact hseen
      · intro d s
        rw [List.mem_singleton]
        refine (or_iff_left ?_).symm
        rintro ⟨-, hunseen, hsame, -⟩
        rw [text_inj hsame] at hunseen
        exact hunseen hseen
      · exact id
    · next hunseen =>
      constructor
      · simp [hcode]
      · intro d
        show d ∈ c :: st.2 ↔ _
        rw [List.mem_cons, List.mem_singleton, or_comm]
        refine or_congr_right ⟨?_, fun hsame => text_inj hsame.1⟩
        rintro rfl
        exact ⟨rfl, hc⟩
      · intro d s
        show s ∈ (st.1.owners.add c service h).servicesFor (some d) ↔ _
        rw [ServiceMap.servicesFor_add, List.mem_singleton]
        by_cases hd : d = c
        · subst hd
          rw [if_pos rfl, List.mem_append, List.mem_singleton]
          simp only [hunseen, hc, not_false_eq_true, and_self, and_true]
        · rw [if_neg hd]
          exact (or_iff_left fun hright => hd (text_inj hright.2.2.1)).symm
      · intro hst d
        show ((st.1.owners.add c service h).servicesFor (some d)).Nodup ∧
          (service ∈ (st.1.owners.add c service h).servicesFor (some d) → d ∈ c :: st.2)
        rw [ServiceMap.servicesFor_add]
        obtain ⟨hnodup, hold⟩ := hst d
        by_cases hd : d = c
        · subst hd
          rw [if_pos rfl]
          refine ⟨?_, fun _ => List.mem_cons_self⟩
          refine List.Nodup.append hnodup (List.nodup_singleton _) fun s hs hs' => ?_
          rw [List.mem_singleton.1 hs'] at hs
          exact hunseen (hold hs)
        · rw [if_neg hd]
          exact ⟨hnodup, fun hs => List.mem_cons_of_mem _ (hold hs)⟩

theorem added_foldl (codes : List Json) (st : Scan × List Text) :
    Added service codes st (codes.foldl (addCode service h) st) := by
  induction codes generalizing st with
  | nil => exact .nil
  | cons code codes ih => exact (added_addCode code).trans (ih (addCode service h st code))

/-- A service with its codes, as it has to be. -/
def IsListing (entry : Text × Json) : Prop :=
  isServiceName entry.1 = true ∧ ∃ codes, entry.2 = .array codes ∧ ∀ code ∈ codes, IsCode code

/-- What the map is of the services so far. -/
structure Listed (before : List MapError) (done : List (Text × Json)) (scan : Scan) : Prop where
  errors : scan.errors = [] ↔ before = [] ∧ ∀ entry ∈ done, IsListing entry
  nodup : ∀ c, (scan.owners.servicesFor (some c)).Nodup
  mem : ∀ c s, s ∈ scan.owners.servicesFor (some c) ↔ ∃ codes, (s, .array codes) ∈ done ∧
    isServiceName s = true ∧ Json.text c ∈ codes ∧ isReasonCode c = true

theorem Listed.addService {before : List MapError} {done : List (Text × Json)} {scan : Scan}
    (hlisted : Listed before done scan) {entry : Text × Json}
    (hnew : entry.1 ∉ done.map Prod.fst) :
    Listed before (done ++ [entry]) (scan.addService entry) := by
  have hothers : ∀ c s, ¬ (isServiceName entry.1 = true ∧ ∃ codes, entry.2 = .array codes) →
      ((∃ codes, (s, Json.array codes) ∈ done ++ [entry] ∧ isServiceName s = true ∧
        Json.text c ∈ codes ∧ isReasonCode c = true) ↔
      ∃ codes, (s, Json.array codes) ∈ done ∧ isServiceName s = true ∧ Json.text c ∈ codes ∧
        isReasonCode c = true) := by
    intro c s hno
    refine exists_congr fun codes => and_congr_left fun hrest => ?_
    rw [List.mem_append, List.mem_singleton]
    refine or_iff_left ?_
    rintro rfl
    exact hno ⟨hrest.1, codes, rfl⟩
  have hfails : ¬ IsListing entry → ∀ error : MapError,
      (scan.errors ++ [error] = [] ↔ before = [] ∧ ∀ e ∈ done ++ [entry], IsListing e) := by
    intro hno error
    constructor
    · intro hnil
      cases (List.append_eq_nil_iff.1 hnil).2
    · rintro ⟨-, hall⟩
      exact absurd (hall entry (List.mem_append_right _ (List.mem_singleton_self _))) hno
  unfold Scan.addService
  split
  · next hname =>
    split
    · next codes hcodes =>
      have hadded := added_foldl (h := ne_nil_of_isServiceName hname) codes (scan, [])
      have hnot : ∀ c, entry.1 ∉ scan.owners.servicesFor (some c) := by
        intro c hmem
        obtain ⟨old, hold, -⟩ := (hlisted.mem c entry.1).1 hmem
        exact hnew (List.mem_map.2 ⟨(entry.1, .array old), hold, rfl⟩)
      refine ⟨?_, fun c => ?_, fun c s => ?_⟩
      · have hentry : IsListing entry ↔ ∀ code ∈ codes, IsCode code := by
          constructor
          · rintro ⟨-, other, hother, hall⟩
            rw [hcodes] at hother
            injection hother with hother
            rw [hother]
            exact hall
          · exact fun hall => ⟨hname, codes, hcodes, hall⟩
        rw [hadded.errors, hlisted.errors, List.forall_mem_append, List.forall_mem_singleton,
          hentry, and_assoc]
      · exact (hadded.nodup (fun c => ⟨hlisted.nodup c, fun hmem => absurd hmem (hnot c)⟩) c).1
      · rw [hadded.mem, hlisted.mem]
        constructor
        · rintro (⟨old, hold, hrest⟩ | ⟨rfl, -, hmem, hc⟩)
          · exact ⟨old, List.mem_append_left _ hold, hrest⟩
          · refine ⟨codes, List.mem_append_right _ ?_, hname, hmem, hc⟩
            rw [← hcodes]
            exact List.mem_singleton_self _
        · rintro ⟨other, hother, hs, hmem, hc⟩
          rcases List.mem_append.1 hother with hother | hother
          · exact .inl ⟨other, hother, hs, hmem, hc⟩
          · have hsame := List.mem_singleton.1 hother
            rw [← hsame] at hcodes
            injection hcodes with hcodes
            refine .inr ⟨by rw [← hsame], List.not_mem_nil, ?_, hc⟩
            rw [← hcodes]
            exact hmem
    · next hcodes =>
      have hno : ¬ (isServiceName entry.1 = true ∧ ∃ codes, entry.2 = .array codes) := by
        rintro ⟨-, codes, hsame⟩
        exact hcodes codes hsame
      refine ⟨hfails (fun hentry => hno ⟨hentry.1, hentry.2.imp fun _ h => h.1⟩) _,
        hlisted.nodup, fun c s => ?_⟩
      rw [hothers c s hno]
      exact hlisted.mem c s
  · next hname =>
    have hno : ¬ (isServiceName entry.1 = true ∧ ∃ codes, entry.2 = .array codes) :=
      fun hboth => hname hboth.1
    refine ⟨hfails (fun hentry => hname hentry.1) _, hlisted.nodup, fun c s => ?_⟩
    rw [hothers c s hno]
    exact hlisted.mem c s

theorem Listed.foldl {before : List MapError} (services : List (Text × Json))
    {done : List (Text × Json)} {scan : Scan} (hlisted : Listed before done scan)
    (hnodup : ((done ++ services).map Prod.fst).Nodup) :
    Listed before (done ++ services) (services.foldl Scan.addService scan) := by
  induction services generalizing done scan with
  | nil =>
    rw [List.append_nil]
    exact hlisted
  | cons entry services ih =>
    have hassoc : done ++ entry :: services = done ++ [entry] ++ services := by simp
    have hnew : entry.1 ∉ done.map Prod.fst := by
      rw [List.map_append, List.map_cons] at hnodup
      exact fun hmem => (List.disjoint_of_nodup_append hnodup) hmem List.mem_cons_self
    rw [hassoc] at hnodup ⊢
    exact ih (hlisted.addService hnew) hnodup

theorem listed_nil (before : List MapError) : Listed before [] ⟨before, [], .none⟩ where
  errors := by simp
  nodup _ := List.nodup_nil
  mem c s := by
    constructor
    · exact fun hmem => absurd hmem List.not_mem_nil
    · rintro ⟨codes, hmem, -⟩
      exact absurd hmem List.not_mem_nil

end Scan

/-! ## The file -/

/-- A document that is taken. -/
structure WellFormed (document services : List (Text × Json)) : Prop where
  keys : ∀ key ∈ document.map Prod.fst, key ∈ mapFileKeys
  version : isOne ((Json.object document).item "schema_version".toList) = true
  found : (Json.object document).item "services".toList = .object services
  listed : ∀ entry ∈ services, Scan.IsListing entry

theorem unless_eq_nil {p : Prop} [Decidable p] {e : MapError} :
    (if p then [] else [e]) = [] ↔ p := by
  by_cases h : p
  · rw [if_pos h]
    exact iff_of_true rfl h
  · rw [if_neg h]
    exact iff_of_false (List.cons_ne_nil _ _) h

theorem documentErrors_eq_nil {document : List (Text × Json)} : documentErrors document = [] ↔
    (∀ key ∈ document.map Prod.fst, key ∈ mapFileKeys) ∧
      isOne ((Json.object document).item "schema_version".toList) = true := by
  have hunknown : (document.map Prod.fst).filter (· ∉ mapFileKeys) = [] ↔
      ∀ key ∈ document.map Prod.fst, key ∈ mapFileKeys := by
    rw [List.filter_eq_nil_iff]
    refine forall₂_congr fun key _ => ?_
    rw [decide_eq_true_eq, not_not]
  unfold documentErrors
  rw [List.append_eq_nil_iff, unless_eq_nil, unless_eq_nil, hunknown]

section

variable {κ : Type u} {decode : κ → Option Text} {digest : κ → Text} {raw : κ}

/-- How a file is read as far as its services. -/
structure ReadAs (decode : κ → Option Text) (raw : κ) (document services : List (Text × Json)) :
    Prop where
  reads : ∃ text, decode raw = some text ∧ loadsUnique text = some (.object document)
  services : (Json.object document).item "services".toList = .object services

theorem ReadAs.nodup {document services : List (Text × Json)}
    (h : ReadAs decode raw document services) : (services.map Prod.fst).Nodup := by
  obtain ⟨text, -, hloads⟩ := h.reads
  have hitem := valid_item (loads_valid (loads_of_loadsUnique hloads)) "services".toList
  rw [h.services] at hitem
  exact (valid_object.1 hitem).1

/-- What `parse` makes of a file that is read as far as its services. -/
theorem parse_of_readAs (digest : κ → Text) {document services : List (Text × Json)}
    (h : ReadAs decode raw document services) :
    ∃ scan, Scan.Listed (documentErrors document) services scan ∧
      (parse decode digest raw).1 = if scan.errors.isEmpty then
        some ⟨scan.owners.sorted, (services.map Prod.fst).insertionSort (· ≤ ·),
          some (digest raw)⟩
      else none := by
  obtain ⟨text, hdecode, hloads⟩ := h.reads
  refine ⟨services.foldl Scan.addService ⟨documentErrors document, [], .none⟩,
    (Scan.listed_nil _).foldl services h.nodup, ?_⟩
  unfold parse
  rw [hdecode]
  dsimp only
  rw [hloads]
  dsimp only
  rw [h.services]
  dsimp only
  split
  · rfl
  · rfl

theorem readAs_of_parse {file : MapFile} (h : (parse decode digest raw).1 = some file) :
    ∃ document services, ReadAs decode raw document services := by
  unfold parse at h
  split at h
  · cases h
  · next text hdecode =>
    split at h
    · cases h
    · next document hloads =>
      split at h
      · next services hservices => exact ⟨document, services, ⟨text, hdecode, hloads⟩, hservices⟩
      · cases h
    · cases h

theorem Scan.Listed.wellFormed_iff {document services : List (Text × Json)} {scan : Scan}
    (hservices : (Json.object document).item "services".toList = .object services)
    (h : Scan.Listed (documentErrors document) services scan) :
    scan.errors = [] ↔ WellFormed document services := by
  rw [h.errors, documentErrors_eq_nil]
  constructor
  · rintro ⟨⟨hkeys, hversion⟩, hlisted⟩
    exact ⟨hkeys, hversion, hservices, hlisted⟩
  · exact fun hwell => ⟨⟨hwell.keys, hwell.version⟩, hwell.listed⟩

/-- What the map of a file gives, by what the file lists. -/
theorem listed_of_parse {file : MapFile} (hfile : (parse decode digest raw).1 = some file) :
    ∃ document services, ReadAs decode raw document services ∧ WellFormed document services ∧
      file.services = (services.map Prod.fst).insertionSort (· ≤ ·) ∧
      file.sha256 = some (digest raw) ∧
      ∀ code, (file.map.servicesFor (some code)).Pairwise (· < ·) ∧
        ∀ service, service ∈ file.map.servicesFor (some code) ↔
          ∃ codes, (service, .array codes) ∈ services ∧ Json.text code ∈ codes := by
  obtain ⟨document, services, hread⟩ := readAs_of_parse hfile
  obtain ⟨scan, hlisted, hparse⟩ := parse_of_readAs digest hread
  rw [hparse] at hfile
  split at hfile
  · next hempty =>
    obtain rfl := Option.some.inj hfile
    have hwell := (hlisted.wellFormed_iff hread.services).1 (List.isEmpty_iff.1 hempty)
    refine ⟨document, services, hread, hwell, rfl, rfl, fun code => ⟨?_, fun service => ?_⟩⟩
    · rw [ServiceMap.servicesFor_sorted]
      have hsorted := List.pairwise_insertionSort (· ≤ ·) (scan.owners.servicesFor (some code))
      have hnodup : ((scan.owners.servicesFor (some code)).insertionSort (· ≤ ·)).Nodup :=
        (List.perm_insertionSort _ _).nodup_iff.2 (hlisted.nodup code)
      exact hsorted.imp₂ (fun _ _ => lt_of_le_of_ne) hnodup
    · rw [ServiceMap.servicesFor_sorted, (List.perm_insertionSort _ _).mem_iff, hlisted.mem]
      refine exists_congr fun codes => ⟨fun hmem => ⟨hmem.1, hmem.2.2.1⟩, fun hmem => ?_⟩
      obtain ⟨hname, other, hother, hcodes⟩ := hwell.listed _ hmem.1
      injection hother with hother
      rw [← hother] at hcodes
      obtain ⟨c, hsame, hcode⟩ := hcodes _ hmem.2
      rw [← text_inj hsame] at hcode
      exact ⟨hmem.1, hname, hmem.2, hcode⟩
  · cases hfile

theorem isSome_parse (digest : κ → Text) {document services : List (Text × Json)}
    (hread : ReadAs decode raw document services) (hwell : WellFormed document services) :
    (parse decode digest raw).1.isSome := by
  obtain ⟨scan, hlisted, hparse⟩ := parse_of_readAs digest hread
  have hnil := (hlisted.wellFormed_iff hread.services).2 hwell
  rw [hparse, hnil]
  rfl

/-- **A file is taken exactly where it is well formed, whole, and its map then gives for each code
the services that list it, in order and none twice**, whatever the order in the file. -/
theorem parse_exact :
    ((parse decode digest raw).1.isSome ↔
      ∃ document services, ReadAs decode raw document services ∧ WellFormed document services) ∧
    ∀ file, (parse decode digest raw).1 = some file →
      ∃ document services, ReadAs decode raw document services ∧ WellFormed document services ∧
        file.services = (services.map Prod.fst).insertionSort (· ≤ ·) ∧
        file.sha256 = some (digest raw) ∧
        ∀ code, (file.map.servicesFor (some code)).Pairwise (· < ·) ∧
          ∀ service, service ∈ file.map.servicesFor (some code) ↔
            ∃ codes, (service, .array codes) ∈ services ∧ Json.text code ∈ codes := by
  refine ⟨⟨fun hsome => ?_, ?_⟩, fun file hfile => listed_of_parse hfile⟩
  · obtain ⟨file, hfile⟩ := Option.isSome_iff_exists.1 hsome
    obtain ⟨document, services, hread, hwell, -⟩ := listed_of_parse hfile
    exact ⟨document, services, hread, hwell⟩
  · rintro ⟨document, services, hread, hwell⟩
    exact isSome_parse digest hread hwell

end

/-- A code of two services, listed out of order. -/
def twoOwners : Text :=
  ("\x7b\"services\": \x7b\"qc\": [\"A\", \"B\"], \"bio\": [\"A\"]\x7d, " ++
    "\"schema_version\": 1\x7d").toList

theorem exists_twoOwners : ∃ file, (parse some id twoOwners).1 = some file ∧
    file.map.servicesFor (some ['A']) = ["bio".toList, "qc".toList] := by
  have htest : (parse some id twoOwners).1.any
      (·.map.servicesFor (some ['A']) = ["bio".toList, "qc".toList]) = true := by
    decide +kernel
  obtain ⟨file, hfile, hservices⟩ := (Option.any_eq_true _ _).1 htest
  exact ⟨file, hfile, of_decide_eq_true hservices⟩

theorem twoOwners_exact : ∃ file, (parse some id twoOwners).1 = some file ∧
    file.map.servicesFor (some ['A']) = ["bio".toList, "qc".toList] ∧
    ∃ document services, ReadAs some twoOwners document services ∧
      WellFormed document services ∧
      file.services = (services.map Prod.fst).insertionSort (· ≤ ·) ∧
      file.sha256 = some twoOwners ∧
      ∀ code, (file.map.servicesFor (some code)).Pairwise (· < ·) ∧
        ∀ service, service ∈ file.map.servicesFor (some code) ↔
          ∃ codes, (service, .array codes) ∈ services ∧ Json.text code ∈ codes := by
  obtain ⟨file, hfile, hservices⟩ := exists_twoOwners
  exact ⟨file, hfile, hservices, parse_exact.2 file hfile⟩

end ResidentCrm.Services
