import ResidentCrm.Dlt.Fingerprint
import ResidentCrm.Dlt.RefIdSearch
import ResidentCrm.Lib.JsonStyles
import ResidentCrm.Messages.MessagePayload

/-!
# The refId of a dead-lettered record

`resolve_ref_id` of `dlt/payload.py`. A payload in the contract of the rejection lane has a field of
its own for the refId; of any other the record's key is tried, then a configured path, the paths of
its type, and a search. What is found says where.
-/

namespace ResidentCrm.Messages

open Dlt.Payload (scalar extractBySearch MAX_SEARCH_DEPTH)
open Dlt.Stacktrace (allDigits)

/-- `DLT_REFID_PATH`, `DLT_REFID_KEYS`, and `DLT_REFID_PATHS_BY_TYPE` as it is parsed. -/
structure RefIdConfig where
  path : Option Text
  keys : Text
  pathsByType : List (Text × List Text)

/-- `REFID_PATHS_BY_TYPE` -/
def REFID_PATHS_BY_TYPE : List (Text × List Text) :=
  [("in.gov.uidai.uidabismiddlewaresb.kafka.model.EnrolmentEventResponse".toList,
    ["abisMWResponseNewSeda.refId".toList, "abisMWResponseNewSeda.abisResponses.referenceId".toList])]

/-- The index that a segment of a path is, if any; none at all where it is one to `isdigit` and `int`
raises, as it does of a second sign, of a raised digit and of too many digits. -/
def segmentIndex (segment : Text) : Option (Option ℤ) :=
  let digits := segment.dropWhile (· = '-')
  if !allDigits digits then some none
  else if digits.all Text.isDigit && segment.length ≤ digits.length + 1 &&
      digits.length ≤ Text.maxIntDigits then
    some (some (withSign segment (Text.toNat digits)))
  else none

/-- `l[n]`; a negative index counts from the end. -/
def listIndex (l : List Json) (n : ℤ) : Option Json :=
  if 0 ≤ n then l[n.toNat]? else if -n ≤ l.length then l[(l.length + n).toNat]? else none

/-- What is at the end of a path, if anything; none at all where `segmentIndex` raises. -/
def followPath : List Text → Json → Option (Option Json)
  | [], node => some (some node)
  | segment :: path, .object items =>
    match items.lookup segment with
    | some node => followPath path node
    | none => some none
  | segment :: path, .array l =>
    match segmentIndex segment with
    | none => none
    | some index =>
      match index.bind (listIndex l) with
      | some node => followPath path node
      | none => some none
  | _ :: _, .scalar _ => some none

/-- `extract_by_path`, which can raise. -/
def extractByPath (payload : Json) (path : Option Text) : Option (Option Text) :=
  match path.filter (· ≠ []) with
  | none => some none
  | some path => (followPath (path.splitOn '.') payload).map (·.bind scalar)

section

variable (config : RefIdConfig)

def pathsForType (typeId : Option Text) : List Text :=
  match typeId.filter (· ≠ []) with
  | none => []
  | some t =>
    match (config.pathsByType.lookup t).filter (· ≠ []) with
    | some paths => paths
    | none => (REFID_PATHS_BY_TYPE.lookup t).getD []

/-- `_extract_by_type` -/
def extractByType (payload : Json) (typeId : Option Text) : Option (Option Text) :=
  (pathsForType config typeId).findSomeM? fun path => extractByPath payload (some path)

/-- A record's key, decoded. -/
def decodeKey (key : Option Text) : Option Text := (key.map Text.strip).filter (· ≠ [])

/-- A key that is shaped like a refId; `$` matches before a last line feed too. -/
def keyAsRefId (key : Option Text) : Option Text :=
  key.filter fun k =>
    let body := if k.getLast? = some '\n' then k.dropLast else k
    8 ≤ body.length && body.length ≤ 128 && (body.head?.any Char.isAlphanum) &&
      body.all fun c => c.isAlphanum || c ∈ "_.:-".toList

variable (pydantic : Pydantic)

def rejectionContract (payload : Json) : Option MessagePayload :=
  if payload.isObject then MessagePayload.validate pydantic payload else none

/-- `_scalar` of a field that is a text. -/
def scalarText (t : Option Text) : Option Text := (t.map Text.strip).filter (· ≠ [])

def contractIdentifiers (contract : MessagePayload) : List Text :=
  ([some contract.eventId, contract.packetMetaData.bind (·.refId),
    contract.packetMetaData.bind (·.srn), contract.sid].filterMap scalarText).eraseDups

structure RefIdExtraction where
  refId : Option Text
  source : Text
  payloadRefId : Option Text
  mismatch : Bool

/-- What the payload says, and where; none at all where a path raises. -/
def fromPayload (payload : Json) (typeId : Option Text) : Option (Option (Text × Text)) := do
  match ← extractByPath payload config.path with
  | some t => return some (t, "configured_path".toList)
  | none =>
    match ← extractByType config payload typeId with
    | some t => return some (t, "type_path".toList)
    | none =>
      let found := extractBySearch config.keys payload none MAX_SEARCH_DEPTH
      return found.map fun t => (t, "search".toList)

/-- `resolve_ref_id`, which raises where a path does. -/
def resolveRefId (payload : Json) (key typeId : Option Text) : Option RefIdExtraction :=
  let contract := rejectionContract pydantic payload
  match contract, contract.bind fun c => scalarText (c.packetMetaData.bind (·.refId)) with
  | some c, some refId => some {
      refId := some refId
      source := "contract".toList
      payloadRefId := some refId
      mismatch := (decodeKey key).any fun k => k ∉ contractIdentifiers c }
  | _, _ =>
    (fromPayload config payload typeId).map fun found =>
      match keyAsRefId key with
      | some k => {
          refId := some k
          source := "record_key".toList
          payloadRefId := found.map Prod.fst
          mismatch := found.any fun x => x.1 ≠ k }
      | none => {
          refId := found.map Prod.fst
          source := (found.map Prod.snd).getD "none".toList
          payloadRefId := found.map Prod.fst
          mismatch := false }

end

/-! ## Where a path raises -/

section

variable {config : RefIdConfig} {payload : Json}

/-- A path raises only at a segment of its own. -/
theorem exists_of_followPath {path : List Text} (h : followPath path payload = none) :
    ∃ segment ∈ path, segmentIndex segment = none := by
  induction path generalizing payload with
  | nil => cases h
  | cons segment path ih =>
    have hrest : ∀ {node : Json}, followPath path node = none →
        ∃ s ∈ segment :: path, segmentIndex s = none := by
      intro node hnode
      obtain ⟨s, hs, hraises⟩ := ih hnode
      exact ⟨s, List.mem_cons_of_mem _ hs, hraises⟩
    cases payload with
    | scalar v => cases h
    | object items =>
      rw [followPath] at h
      split at h
      · exact hrest h
      · cases h
    | array l =>
      rw [followPath] at h
      split at h
      · next hraises => exact ⟨segment, List.mem_cons_self, hraises⟩
      · split at h
        · exact hrest h
        · cases h

theorem exists_of_extractByPath {path : Option Text} (h : extractByPath payload path = none) :
    ∃ p ∈ path, ∃ segment ∈ p.splitOn '.', segmentIndex segment = none := by
  unfold extractByPath at h
  split at h
  · cases h
  · next p hp =>
    rw [Option.filter_eq_some_iff] at hp
    exact ⟨p, hp.1, exists_of_followPath (Option.map_eq_none_iff.1 h)⟩

theorem exists_of_paths {paths : List Text}
    (h : paths.findSomeM? (fun path => extractByPath payload (some path)) = none) :
    ∃ path ∈ paths, ∃ segment ∈ path.splitOn '.', segmentIndex segment = none := by
  induction paths with
  | nil => cases h
  | cons path paths ih =>
    rw [List.findSomeM?_cons, Option.bind_eq_bind, Option.bind_eq_none_iff] at h
    cases hpath : extractByPath payload (some path) with
    | none =>
      obtain ⟨p, hp, hraises⟩ := exists_of_extractByPath hpath
      obtain rfl := Option.some.inj hp
      exact ⟨path, List.mem_cons_self, hraises⟩
    | some found =>
      have hnext := h found hpath
      cases found with
      | some t => cases hnext
      | none =>
        obtain ⟨p, hp, hraises⟩ := ih hnext
        exact ⟨p, List.mem_cons_of_mem _ hp, hraises⟩

/-- The paths that are configured. -/
def RefIdConfig.configured (config : RefIdConfig) : List Text :=
  config.path.toList ++ config.pathsByType.flatMap Prod.snd

/-- A path that is tried for a type is configured, or it raises nowhere. -/
theorem mem_pathsForType {typeId : Option Text} {path : Text}
    (h : path ∈ pathsForType config typeId) : path ∈ config.configured ∨
      ∀ segment ∈ path.splitOn '.', segmentIndex segment ≠ none := by
  have hregistered : ∀ entry ∈ REFID_PATHS_BY_TYPE, ∀ path ∈ entry.2,
      ∀ segment ∈ path.splitOn '.', segmentIndex segment ≠ none := by decide
  unfold pathsForType at h
  split at h
  · cases h
  · next t _ =>
    split at h
    · next paths hpaths =>
      rw [Option.filter_eq_some_iff] at hpaths
      have hentry := mem_of_lookup hpaths.1
      exact .inl (List.mem_append_right _ (List.mem_flatMap.2 ⟨_, hentry, h⟩))
    · cases hlookup : REFID_PATHS_BY_TYPE.lookup t with
      | none =>
        rw [hlookup] at h
        cases h
      | some paths =>
        rw [hlookup] at h
        exact .inr (hregistered _ (mem_of_lookup hlookup) path h)

/-- **Only a configured path raises**, at a segment that is no index to `int`. -/
theorem exists_of_fromPayload {typeId : Option Text}
    (h : fromPayload config payload typeId = none) :
    ∃ path ∈ config.configured, ∃ segment ∈ path.splitOn '.', segmentIndex segment = none := by
  rw [fromPayload, Option.bind_eq_bind, Option.bind_eq_none_iff] at h
  cases hpath : extractByPath payload config.path with
  | none =>
    obtain ⟨p, hp, hraises⟩ := exists_of_extractByPath hpath
    exact ⟨p, List.mem_append_left _ (Option.mem_toList.2 hp), hraises⟩
  | some found =>
    have hnext := h found hpath
    cases found with
    | some t => cases hnext
    | none =>
      dsimp only at hnext
      rw [Option.bind_eq_none_iff] at hnext
      cases hfound : extractByType config payload typeId with
      | none =>
        obtain ⟨p, hp, segment, hsegment, hraises⟩ := exists_of_paths hfound
        rcases mem_pathsForType hp with hconfigured | hnever
        · exact ⟨p, hconfigured, segment, hsegment, hraises⟩
        · exact absurd hraises (hnever segment hsegment)
      | some found =>
        have hlast := hnext found hfound
        cases found <;> cases hlast

end

end ResidentCrm.Messages
