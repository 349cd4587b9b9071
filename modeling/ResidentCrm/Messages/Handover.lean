import Mathlib.Logic.Relation
import ResidentCrm.Messages.Adapters

/-!
# From the fetch stage to the analysis stage

A record that passes its adapter is sent to a fetch route, which puts it on an analysis queue, where
the same adapter reads it. However often this is done, a dead letter stays the same message, under
the same case id and storage key, whatever record of the queue carries it (`dlt_handed_over`); a
rejection becomes the packet event the route validated, and stays that (`rejection_handed_over`). A
dead letter is poison only where it looks like one that was republished and is none
(`dlt_poison_iff`).
-/

namespace ResidentCrm.Messages

open Dlt.Identity (Digest deriveCaseId)
open Dlt.GroupStore (idCharacter isValidCaseId)

variable {settings : Settings} {r next : Record}

/-! ## Case ids -/

section

variable {digest : Text → Digest}

theorem idCharacter_sanitise (t : Text) : ∀ c ∈ Dlt.Identity.sanitise t, idCharacter c = true := by
  intro c hc
  obtain ⟨d, -, rfl⟩ := List.mem_map.1 hc
  by_cases hd : idCharacter d = true
  · rw [if_pos hd]
    exact hd
  · rw [if_neg hd]
    rfl

theorem idCharacter_digest (d : Digest) : ∀ c ∈ d.text, idCharacter c = true := fun c hc =>
  (Dlt.Identity.isHex_cases (List.all_eq_true.1 d.hex c hc)).1

theorem idCharacter_strInt (n : ℤ) : ∀ c ∈ Dlt.Identity.strInt n, idCharacter c = true := by
  intro c hc
  cases n with
  | ofNat n => exact (Dlt.Identity.isDigit_cases hc).1
  | negSucc n =>
    rcases List.mem_cons.1 hc with rfl | hc
    · rfl
    · exact (Dlt.Identity.isDigit_cases hc).1

theorem idCharacter_suffixOf (partition offset : ℤ) (group : Text) :
    ∀ c ∈ Dlt.Identity.suffixOf digest partition offset group, idCharacter c = true := by
  intro c hc
  simp only [Dlt.Identity.suffixOf, List.mem_append, List.mem_cons] at hc
  rcases hc with ((rfl | hc) | rfl | hc) | hc
  · rfl
  · exact idCharacter_strInt _ c hc
  · rfl
  · exact idCharacter_strInt _ c hc
  · split at hc
    · rcases List.mem_append.1 hc with hc | hc
      · exact List.all_eq_true.1 (rfl : "-g".toList.all idCharacter = true) c hc
      · exact idCharacter_digest _ c hc
    · exact absurd hc List.not_mem_nil

theorem idCharacter_headOf (topic suffix : Text) :
    ∀ c ∈ Dlt.Identity.headOf digest topic suffix, idCharacter c = true := by
  have hdlt := List.all_eq_true.1 (rfl : "dlt-".toList.all idCharacter = true)
  intro c hc
  simp only [Dlt.Identity.headOf] at hc
  split at hc
  · simp only [List.mem_append, List.mem_cons] at hc
    rcases hc with (hc | hc) | rfl | hc
    · exact hdlt c hc
    · exact idCharacter_sanitise topic c (List.mem_of_mem_take hc)
    · rfl
    · exact idCharacter_digest _ c hc
  · rcases List.mem_append.1 hc with hc | hc
    · exact hdlt c hc
    · exact idCharacter_sanitise topic c hc

theorem isEventId_of_all {id : Text} (hne : 1 ≤ id.length) (hlength : id.length ≤ 128)
    (h : ∀ c ∈ id, idCharacter c = true) : isEventId id = true := by
  simp only [isEventId, Bool.and_eq_true, decide_eq_true_eq]
  exact ⟨⟨hne, hlength⟩, List.all_eq_true.2 h⟩

/-- A case id that is derived passes the pattern. -/
theorem isEventId_of_derive {topic : Option Text} {partition offset : Option ℤ}
    {group : Option Text} {id : Text}
    (h : deriveCaseId digest topic partition offset group = some id) : isEventId id = true := by
  unfold deriveCaseId at h
  split at h
  · next topic partition offset =>
    dsimp only at h
    split at h
    · next hvalid =>
      obtain rfl := Option.some.inj h
      have hchars : ∀ c ∈ Dlt.Identity.headOf digest topic (Dlt.Identity.suffixOf digest partition
          offset (Text.strip (group.getD []))) ++ Dlt.Identity.suffixOf digest partition offset
            (Text.strip (group.getD [])), idCharacter c = true := fun c hc =>
        (List.mem_append.1 hc).elim (idCharacter_headOf _ _ c) (idCharacter_suffixOf _ _ _ c)
      generalize Dlt.Identity.headOf digest topic (Dlt.Identity.suffixOf digest partition
        offset (Text.strip (group.getD []))) ++ Dlt.Identity.suffixOf digest partition offset
          (Text.strip (group.getD [])) = id at hvalid hchars
      have hlast : id.getLast? ≠ some '\n' := fun hlast =>
        absurd (hchars _ (List.mem_of_getLast? hlast)) (by decide)
      simp only [isValidCaseId, if_neg hlast, Bool.and_eq_true, decide_eq_true_eq] at hvalid
      exact isEventId_of_all hvalid.1.1 hvalid.1.2 hchars
    · cases h
  · cases h

/-- A record's own coordinates make a case id, whatever its topic. -/
theorem exists_caseId (digest : Text → Digest) (topic : Text) {partition offset : ℕ}
    (hpartition : partition < 2 ^ 31) (hoffset : offset < 2 ^ 63) :
    ∃ id, deriveCaseId digest (some topic) (some partition) (some offset) none = some id := by
  have hp : (Text.ofNat partition).length ≤ 10 :=
    Dlt.Identity.length_ofNat_le (by decide) (Nat.lt_of_lt_of_le hpartition (by decide))
  have ho : (Text.ofNat offset).length ≤ 20 :=
    Dlt.Identity.length_ofNat_le (by decide) (Nat.lt_of_lt_of_le hoffset (by decide))
  have hsuffix : Dlt.Identity.suffixOf digest partition offset [] =
      '-' :: Text.ofNat partition ++ '-' :: Text.ofNat offset := List.append_nil _
  have hdigest := (digest topic).length_eq
  have hdlt : "dlt-".toList.length = 4 := rfl
  have hhead : (Dlt.Identity.headOf digest topic (Dlt.Identity.suffixOf digest partition offset [])
      ++ Dlt.Identity.suffixOf digest partition offset []).length ≤ 128 := by
    simp only [Dlt.Identity.headOf]
    split
    · simp only [List.length_append, List.length_cons, List.length_take, hdigest, hdlt, hsuffix]
      omega
    · next hfits => exact Nat.not_lt.1 hfits
  have hne : Dlt.Identity.headOf digest topic (Dlt.Identity.suffixOf digest partition offset []) ++
      Dlt.Identity.suffixOf digest partition offset [] ≠ [] := by
    rw [hsuffix]
    simp
  have hvalid := Dlt.Identity.isValidCaseId_of_all hne hhead fun c hc =>
    (List.mem_append.1 hc).elim (idCharacter_headOf _ _ c) (idCharacter_suffixOf _ _ _ c)
  exact ⟨_, if_pos hvalid⟩

end

/-! ## Dead letters -/

theorem valid_payloadOf (r : Record) : (payloadOf r).Valid := by
  unfold payloadOf
  cases hload : r.value.bind loads with
  | none => exact valid_null
  | some v =>
    obtain ⟨raw, -, hraw⟩ := Option.bind_eq_some_iff.1 hload
    exact loads_valid hraw

theorem writable_messageOf {extraction : RefIdExtraction} {caseId : Text}
    (h : isEventId caseId = true) : (messageOf settings r extraction caseId h).Writable where
  headers := (dictOf_spec (P := fun _ => True) fun _ _ => trivial).1
  payload := of_toMessagePayload partwise_valid (valid_payloadOf r)
  extra := valid_object.2 ⟨List.nodup_nil, fun _ hitem => absurd hitem List.not_mem_nil⟩

/-- What the adapter makes of a record. -/
theorem parseDlt_cases {m : DltMessage} (h : parseDlt settings r = some (.ok m)) :
    DltMessage.validate settings.pydantic (payloadOf r) = some m ∨
      ∃ extraction caseId hid, m = messageOf settings r extraction caseId hid := by
  unfold parseDlt at h
  split at h
  · split at h
    · next message hmessage =>
      obtain rfl := Except.ok.inj (Option.some.inj h)
      exact .inl hmessage
    · cases h
  · split at h
    · cases h
    · next caseId _ =>
      obtain ⟨extraction, -, hparsed⟩ := Option.map_eq_some_iff.1 h
      split at hparsed
      · next hid =>
        obtain rfl := Except.ok.inj hparsed
        exact .inr ⟨extraction, caseId, hid, rfl⟩
      · cases hparsed

theorem writable_of_parse {m : DltMessage} (h : parseDlt settings r = some (.ok m)) :
    m.Writable := by
  rcases parseDlt_cases h with hmessage | ⟨extraction, caseId, hid, rfl⟩
  · exact DltMessage.writable_of_validate (valid_payloadOf r) hmessage
  · exact writable_messageOf hid

/-- The route takes what the adapter made, and adds to it. -/
theorem fetchDltLogs_value {m : DltMessage} (h : m.Writable) (style : Style) (gaps : List Text)
    (window : Option Text) (versions : List Text) :
    fetchDltLogs settings (style.value m.dump) gaps window versions =
      some (Style.ascii.value (m.enqueued gaps window versions).dump) := by
  have hloads := style.loads_value h.valid_dump
  have hvalidate := DltMessage.validate_dump settings.pydantic m
  rw [← DltMessage.queued_eq]
  simp only [fetchDltLogs, hloads, hvalidate, Option.bind_eq_bind, Option.bind_some,
    Option.pure_def]

/-- A message on the queue is read as it was written. -/
theorem parseDlt_of_value {m : DltMessage} (h : m.Writable)
    (hvalue : r.value = some (Style.ascii.value m.dump)) :
    parseDlt settings r = some (.ok m) := by
  have hpayload : payloadOf r = m.dump := by
    rw [payloadOf, hvalue, Option.bind_some, Style.loads_value _ h.valid_dump, Option.getD_some]
  have hrepublished : isRepublished m.dump = true := rfl
  rw [parseDlt, hpayload, if_pos hrepublished, DltMessage.validate_dump]

/-- A stage takes the message: it can be posted to the route, and the route takes it. -/
theorem taken_iff {m : DltMessage} (h : m.Writable) (style : Style) (gaps : List Text)
    (window : Option Text) (versions : List Text) :
    ((posted style m.dump).bind fun body =>
        fetchDltLogs settings body gaps window versions).isSome = true ↔
      m.dump.isFinite = true := by
  unfold posted
  split
  · next hfinite =>
    rw [Option.bind_some, fetchDltLogs_value h]
    exact ⟨fun _ => hfinite, fun _ => rfl⟩
  · next hfinite => exact ⟨fun hsome => absurd hsome Bool.false_ne_true, fun h => absurd h hfinite⟩

/-- `next` is what a fetch stage puts on the analysis queue for `r`. -/
inductive DltHop (settings : Settings) (r next : Record) : Prop
  | handOver {m : DltMessage} {style : Style} {gaps versions : List Text} {window : Option Text}
      {body text : Text} (hparse : parseDlt settings r = some (.ok m))
      (hposted : posted style m.dump = some body)
      (hqueued : fetchDltLogs settings body gaps window versions = some text)
      (hvalue : next.value = some text)

/-- The fields that the fetch stage sets. -/
def fetched : List Text :=
  ["evidence_gaps".toList, "log_window".toList, "baseline_versions".toList]

/-- The same message, but for what the fetch stage set. -/
structure SameDlt (m m' : DltMessage) : Prop where
  declared : m' = { m with extra := m'.extra }
  extra : ∀ key ∉ fetched, m'.extra.items.lookup key = m.extra.items.lookup key

theorem SameDlt.refl (m : DltMessage) : SameDlt m m := ⟨rfl, fun _ _ => rfl⟩

theorem SameDlt.trans {a b c : DltMessage} (hab : SameDlt a b) (hbc : SameDlt b c) :
    SameDlt a c where
  declared := by
    rw [hbc.declared, hab.declared]
  extra key hkey := (hbc.extra key hkey).trans (hab.extra key hkey)

theorem sameDlt_enqueued (m : DltMessage) (gaps : List Text) (window : Option Text)
    (versions : List Text) : SameDlt m (m.enqueued gaps window versions) where
  declared := rfl
  extra key hkey := by
    simp only [fetched, List.mem_cons, List.not_mem_nil, or_false, not_or] at hkey
    obtain ⟨hgaps, hwindow, hversions⟩ := hkey
    show (setItem _ _ (setItem _ _ (setItem _ _ m.extra.items))).lookup key = _
    rw [lookup_setItem, if_neg hversions, lookup_setItem, if_neg hwindow, lookup_setItem,
      if_neg hgaps]

/-- A message is handed over where its numbers are finite, and they stay so. -/
theorem sameDlt_of_hop {m : DltMessage} (hparse : parseDlt settings r = some (.ok m))
    (h : DltHop settings r next) : ∃ m', parseDlt settings next = some (.ok m') ∧ SameDlt m m' ∧
      m.dump.isFinite = true ∧ m'.dump.isFinite = true := by
  obtain ⟨hparse', hposted, hqueued, hvalue⟩ := h
  next message style gaps versions window body text =>
  obtain rfl := Except.ok.inj (Option.some.inj (hparse.symm.trans hparse'))
  have hwritable := writable_of_parse hparse
  obtain ⟨hfinite, hbody⟩ := Option.ite_none_right_eq_some.1 hposted
  rw [← Option.some.inj hbody, fetchDltLogs_value hwritable] at hqueued
  rw [← hqueued] at hvalue
  exact ⟨m.enqueued gaps window versions,
    parseDlt_of_value (hwritable.enqueued gaps window versions) hvalue,
    sameDlt_enqueued m gaps window versions, hfinite,
    DltMessage.isFinite_enqueued hfinite gaps window versions⟩

/-- **A dead letter stays the same message** over any number of fetch stages, with its case id and
storage key, whatever record carries it; and each stage takes it, unless a number of it is not
finite, which the first one cannot be sent. -/
theorem dlt_handed_over {m : DltMessage} (hparse : parseDlt settings r = some (.ok m))
    (hhops : Relation.ReflTransGen (DltHop settings) r next) :
    ∃ m', parseDlt settings next = some (.ok m') ∧ SameDlt m m' ∧
      dltIdentityOf settings m' = dltIdentityOf settings m ∧
      ∀ (style : Style) gaps window versions,
        ((posted style m'.dump).bind fun body =>
            fetchDltLogs settings body gaps window versions).isSome = true ↔
          m.dump.isFinite = true := by
  have hsame : ∃ m', parseDlt settings next = some (.ok m') ∧ SameDlt m m' ∧
      (m'.dump.isFinite = true ↔ m.dump.isFinite = true) := by
    induction hhops with
    | refl => exact ⟨m, hparse, .refl m, Iff.rfl⟩
    | tail _ hhop ih =>
      obtain ⟨m₁, hparse₁, hsame₁, hfinite⟩ := ih
      obtain ⟨m₂, hparse₂, hsame₂, hfinite₁, hfinite₂⟩ := sameDlt_of_hop hparse₁ hhop
      exact ⟨m₂, hparse₂, hsame₁.trans hsame₂,
        ⟨fun _ => hfinite.1 hfinite₁, fun _ => hfinite₂⟩⟩
  obtain ⟨m', hparse', hsame, hfinite⟩ := hsame
  refine ⟨m', hparse', hsame, ?_, fun style gaps window versions => ?_⟩
  · rw [hsame.declared]
    rfl
  · exact (taken_iff (writable_of_parse hparse') style gaps window versions).trans hfinite

/-- Nothing configured, and no hashing. -/
def plain : Settings where
  pydantic := ⟨fun v => match v with | .scalar (.bool b) => some b | _ => none, fun _ => rfl⟩
  refIds := ⟨none, [], []⟩
  digest _ := ⟨"0123456789".toList, rfl, rfl⟩

theorem zero_lt_offsets : 0 < 2 ^ 63 := Nat.two_pow_pos 63

theorem zero_lt_partitions : 0 < 2 ^ 31 := Nat.two_pow_pos 31

/-- The first record of a topic. -/
def first (topic value : Text) : Record :=
  ⟨some value, none, [], topic, 0, 0, zero_lt_partitions, zero_lt_offsets⟩

theorem isEventId_orders : isEventId "dlt-orders-0-0".toList = true := rfl

/-- Nothing is found in the first record. -/
def nothingFound : RefIdExtraction := ⟨none, "none".toList, none, false⟩

def deadLetter : DltMessage :=
  messageOf plain (first "orders".toList ['[', ']']) nothingFound "dlt-orders-0-0".toList
    isEventId_orders

theorem parseDlt_deadLetter :
    parseDlt plain (first "orders".toList ['[', ']']) = some (.ok deadLetter) := rfl

/-- The queue's record of a message that a fetch stage found nothing for. -/
def requeued (m : DltMessage) : Record :=
  first "analysis".toList (Style.ascii.value (m.enqueued [] none []).dump)

theorem posted_deadLetter :
    posted .compact deadLetter.dump = some (Style.compact.value deadLetter.dump) :=
  if_pos (by decide)

theorem deadLetter_handed_over :
    ∃ m', parseDlt plain (requeued deadLetter) = some (.ok m') ∧ SameDlt deadLetter m' ∧
      dltIdentityOf plain m' = dltIdentityOf plain deadLetter ∧
      ∀ (style : Style) gaps window versions,
        ((posted style m'.dump).bind fun body =>
            fetchDltLogs plain body gaps window versions).isSome = true ↔
          deadLetter.dump.isFinite = true :=
  dlt_handed_over parseDlt_deadLetter (.single (.handOver parseDlt_deadLetter posted_deadLetter
    (fetchDltLogs_value (writable_of_parse parseDlt_deadLetter) .compact [] none []) rfl))

/-- The adapter makes of a record that was not republished a message, unless a path raises. -/
theorem parseDlt_of_not_republished (h : isRepublished (payloadOf r) = false) :
    ∃ caseId hid, parseDlt settings r = (extractionOf settings r).map fun extraction =>
      .ok (messageOf settings r extraction caseId hid) := by
  obtain ⟨own, hown⟩ :=
    exists_caseId settings.digest r.topic r.partition_lt r.offset_lt
  have hcase : ∃ id, caseIdOf settings r = some id ∧ isEventId id = true := by
    unfold caseIdOf
    dsimp only
    rw [hown]
    cases hderive : deriveCaseId settings.digest
      (parseHeaders (decodeKafkaHeaders r.headers)).originalTopic
      (parseHeaders (decodeKafkaHeaders r.headers)).originalPartition
      (parseHeaders (decodeKafkaHeaders r.headers)).originalOffset
      (parseHeaders (decodeKafkaHeaders r.headers)).consumerGroup with
    | none => exact ⟨own, rfl, isEventId_of_derive hown⟩
    | some id => exact ⟨id, rfl, isEventId_of_derive hderive⟩
  obtain ⟨id, hid, hvalid⟩ := hcase
  refine ⟨id, hvalid, ?_⟩
  simp only [parseDlt, h, Bool.false_eq_true, if_false, hid, dif_pos hvalid]

/-- **A record is poison only where it looks like a republished message and is none**: a record of
the dead-letter topic is never dropped for what its payload, its key or its headers hold. And the
adapter raises only where a configured path has a segment that `int` refuses. -/
theorem dlt_poison_iff :
    ((∃ raw, parseDlt settings r = some (.error raw)) ↔
      isRepublished (payloadOf r) = true ∧
        DltMessage.validate settings.pydantic (payloadOf r) = none) ∧
    (parseDlt settings r = none →
      ∃ path ∈ settings.refIds.configured, ∃ segment ∈ path.splitOn '.',
        segmentIndex segment = none) := by
  cases hrepublished : isRepublished (payloadOf r) with
  | true =>
    unfold parseDlt
    rw [if_pos hrepublished]
    cases hvalidate : DltMessage.validate settings.pydantic (payloadOf r) with
    | none =>
      refine ⟨⟨fun _ => ⟨rfl, rfl⟩, fun _ => ⟨_, rfl⟩⟩, fun hraises => ?_⟩
      cases hraises
    | some m =>
      refine ⟨⟨?_, ?_⟩, fun hraises => ?_⟩
      · rintro ⟨raw, hraw⟩
        cases hraw
      · rintro ⟨-, hnone⟩
        cases hnone
      · cases hraises
  | false =>
    obtain ⟨caseId, hid, hparse⟩ := parseDlt_of_not_republished hrepublished
    rw [hparse]
    refine ⟨⟨?_, ?_⟩, fun hraises => ?_⟩
    · rintro ⟨raw, hraw⟩
      obtain ⟨extraction, -, hok⟩ := Option.map_eq_some_iff.1 hraw
      cases hok
    · rintro ⟨hfalse, -⟩
      cases hfalse
    · rw [Option.map_eq_none_iff, extractionOf, resolveRefId] at hraises
      split at hraises
      · cases hraises
      · exact exists_of_fromPayload (Option.map_eq_none_iff.1 hraises)

/-- A path with a second sign, which `isdigit` does not see. -/
def signed : Settings := { plain with refIds := ⟨some "--1".toList, [], []⟩ }

theorem parseDlt_signed : parseDlt signed (first "orders".toList ['[', ']']) = none := rfl

theorem signed_raises : parseDlt signed (first "orders".toList ['[', ']']) = none ∧
    ∃ path ∈ signed.refIds.configured, ∃ segment ∈ path.splitOn '.',
      segmentIndex segment = none :=
  ⟨parseDlt_signed, dlt_poison_iff.2 parseDlt_signed⟩

/-! ## Rejections -/

theorem eq_of_optional_string {v : Json} {s : Option Text} (h : optional Json.string v = some s) :
    v = Json.optional s := by
  cases v with
  | scalar v =>
    cases v with
    | null =>
      obtain rfl := Option.some.inj h
      rfl
    | string t =>
      obtain rfl := Option.some.inj h
      rfl
    | bool => cases h
    | number => cases h
    | nonFinite => cases h
  | array => cases h
  | object => cases h

theorem PacketExecutionSummary.status_of_validate {pydantic : Pydantic} {v : Json}
    {s : PacketExecutionSummary} (h : PacketExecutionSummary.validate pydantic v = some s) :
    v.item "packetStatus".toList = Json.optional s.packetStatus := by
  unfold PacketExecutionSummary.validate at h
  split at h
  · simp only [Option.bind_eq_bind, Option.bind_eq_some_iff, Option.pure_def,
      Option.some.injEq] at h
    obtain ⟨_, -, _, -, status, hstatus, _, -, _, -, _, -, rfl⟩ := h
    exact eq_of_optional_string hstatus
  · cases h

/-- What is kept of an event has its id and its status. -/
theorem MessagePayload.same_of_validate {pydantic : Pydantic} {body : Json}
    {m : MessagePayload} (hbody : toMessagePayload body = body)
    (h : MessagePayload.validate pydantic body = some m) :
    rejectionIdentityOf m.dump = rejectionIdentityOf body ∧ statusOf m.dump = statusOf body := by
  have hread := MessagePayload.readFrom_of_validate h
  rw [hbody] at hread
  constructor
  · rw [rejectionIdentityOf, rejectionIdentityOf, hread.eventId]
    rfl
  · rw [statusOf, statusOf,
      PacketExecutionSummary.status_of_validate hread.packetExecutionSummary]
    rfl

theorem body_of_parseRejection {body : Json} (h : parseRejection settings r = some (.ok body)) :
    body.Valid ∧ toMessagePayload body = body ∧
      ∃ m, MessagePayload.validate settings.pydantic body = some m := by
  obtain ⟨raw, -, h⟩ := Option.map_eq_some_iff.1 h
  cases hload : (loads raw).map (toMessagePayload) with
  | none =>
    rw [hload] at h
    cases h
  | some payload =>
    rw [hload] at h
    dsimp only at h
    split at h
    · next hvalid =>
      obtain rfl := Except.ok.inj h
      obtain ⟨v, hv, rfl⟩ := Option.map_eq_some_iff.1 hload
      exact ⟨of_toMessagePayload partwise_valid (loads_valid hv), toMessagePayload_idempotent,
        Option.isSome_iff_exists.1 hvalid⟩
    · cases h

theorem fetchLogs_value {body : Json} {m : MessagePayload} (hvalid : body.Valid)
    (h : MessagePayload.validate settings.pydantic body = some m) (style : Style) :
    fetchLogs settings (style.value body) = some (Style.ascii.value m.dump) := by
  have hloads := style.loads_value hvalid
  simp only [fetchLogs, hloads, h, Option.bind_eq_bind, Option.bind_some, Option.pure_def]

theorem parseRejection_of_value {m : MessagePayload} (hvalid : m.dump.Valid)
    (hvalue : r.value = some (Style.ascii.value m.dump)) :
    parseRejection settings r = some (.ok m.dump) := by
  have hloads := Style.ascii.loads_value hvalid
  have hsame : toMessagePayload m.dump = m.dump := toMessagePayload_of_hasKey rfl
  have hvalidate : MessagePayload.validate settings.pydantic m.dump = some m :=
    m.validate_dump
  simp only [parseRejection, hvalue, hloads, hsame, hvalidate, Option.map_some, Option.isSome_some,
    if_true]

/-- A stage takes a body: it can be posted to the route, and the route takes it. -/
theorem body_taken_iff {body : Json} {m : MessagePayload} (hvalid : body.Valid)
    (h : MessagePayload.validate settings.pydantic body = some m) (style : Style) :
    ((posted style body).bind (fetchLogs settings)).isSome = true ↔ body.isFinite = true := by
  unfold posted
  split
  · next hfinite =>
    rw [Option.bind_some, fetchLogs_value hvalid h]
    exact ⟨fun _ => hfinite, fun _ => rfl⟩
  · next hfinite => exact ⟨fun hsome => absurd hsome Bool.false_ne_true, fun h => absurd h hfinite⟩

/-- `next` is what a fetch stage puts on the analysis queue for `r`. -/
inductive RejectionHop (settings : Settings) (r next : Record) : Prop
  | handOver {body : Json} {style : Style} {sent text : Text}
      (hparse : parseRejection settings r = some (.ok body))
      (hposted : posted style body = some sent)
      (hqueued : fetchLogs settings sent = some text)
      (hvalue : next.value = some text)

theorem parse_of_hop {body : Json} {m : MessagePayload}
    (hparse : parseRejection settings r = some (.ok body))
    (hm : MessagePayload.validate settings.pydantic body = some m)
    (h : RejectionHop settings r next) : parseRejection settings next = some (.ok m.dump) := by
  obtain ⟨hparse', hposted, hqueued, hvalue⟩ := h
  next body' style sent text =>
  obtain rfl := Except.ok.inj (Option.some.inj (hparse.symm.trans hparse'))
  obtain ⟨hvalid, -, -⟩ := body_of_parseRejection hparse
  obtain ⟨-, hsent⟩ := Option.ite_none_right_eq_some.1 hposted
  rw [← Option.some.inj hsent, fetchLogs_value hvalid hm] at hqueued
  rw [← hqueued] at hvalue
  exact parseRejection_of_value (MessagePayload.dump_of_validate partwise_valid hvalid hvalid hm) hvalue

/-- **A rejection becomes the event that its route validated, and stays it** over any number of
fetch stages, with its id and the status that decides whether it is skipped; and each stage takes
it, unless a number of it is not finite, which the first one cannot be sent. -/
theorem rejection_handed_over {body : Json}
    (hparse : parseRejection settings r = some (.ok body)) :
    ∃ m, MessagePayload.validate settings.pydantic body = some m ∧
      rejectionIdentityOf m.dump = rejectionIdentityOf body ∧ statusOf m.dump = statusOf body ∧
      (∀ style : Style,
        (((posted style body).bind (fetchLogs settings)).isSome = true ↔ body.isFinite = true) ∧
        (body.isFinite = true →
          ((posted style m.dump).bind (fetchLogs settings)).isSome = true)) ∧
      ∀ next, Relation.TransGen (RejectionHop settings) r next →
        parseRejection settings next = some (.ok m.dump) := by
  obtain ⟨hvalid, hbody, m, hm⟩ := body_of_parseRejection hparse
  obtain ⟨hid, hstatus⟩ := MessagePayload.same_of_validate hbody hm
  have hdump : MessagePayload.validate settings.pydantic m.dump = some m := m.validate_dump
  have hvalid' := MessagePayload.dump_of_validate partwise_valid hvalid hvalid hm
  refine ⟨m, hm, hid, hstatus, fun style => ⟨body_taken_iff hvalid hm style, fun hfinite => ?_⟩,
    fun next hhops => ?_⟩
  · exact (body_taken_iff hvalid' hdump style).2
      (MessagePayload.dump_of_validate partwise_isFinite hvalid hfinite hm)
  · induction hhops with
    | single hhop => exact parse_of_hop hparse hm hhop
    | tail _ hhop ih => exact parse_of_hop ih hdump hhop

/-- An envelope of a packet on hold. -/
def envelope : Json := .object [("edata".toList, .object [("refId".toList, .text "R-1".toList),
  ("executionStatus".toList, .text "ON_HOLD".toList)])]

theorem valid_envelope : envelope.Valid := by
  simp [envelope, Json.Valid, Json.ValidFields, Json.text]

theorem parseRejection_envelope :
    parseRejection plain (first "audit".toList (Style.ascii.value envelope)) =
      some (.ok (translated envelope)) := by
  have hloads := Style.ascii.loads_value valid_envelope
  rw [parseRejection, first, Option.map_some, hloads]
  rfl

theorem envelope_handed_over :
    ∃ m, MessagePayload.validate plain.pydantic (translated envelope) = some m ∧
      rejectionIdentityOf m.dump = rejectionIdentityOf (translated envelope) ∧
      statusOf m.dump = statusOf (translated envelope) ∧
      (∀ style : Style,
        (((posted style (translated envelope)).bind (fetchLogs plain)).isSome = true ↔
          (translated envelope).isFinite = true) ∧
        ((translated envelope).isFinite = true →
          ((posted style m.dump).bind (fetchLogs plain)).isSome = true)) ∧
      ∀ next, Relation.TransGen (RejectionHop plain)
          (first "audit".toList (Style.ascii.value envelope)) next →
        parseRejection plain next = some (.ok m.dump) :=
  rejection_handed_over parseRejection_envelope

end ResidentCrm.Messages
