import ResidentCrm.Dlt.GroupCutover
import ResidentCrm.Lib.Json

/-!
# Case ids and storage keys

`dlt/identity.py`: the id of a dead-letter case is made of its record's coordinates, with a digest
of the consumer group and, where the topic is too long, one of the topic. A record can be told from
its id (`derive_injective`), read from the right end, and a case from its storage key
(`storageKey_injective`), as far as the digest tells texts apart.
-/

namespace ResidentCrm.Dlt.Identity

open GroupStore (idCharacter isValidCaseId storageKey)

def isHex (c : Char) : Bool := c ∈ "0123456789abcdef".toList

/-- What `_digest` returns: ten hexadecimal digits. -/
@[ext] structure Digest where
  text : Text
  length_eq : text.length = 10
  hex : text.all isHex = true

def sanitise (text : Text) : Text := text.map fun c => if idCharacter c then c else '-'

/-- `str` of an `int`. -/
def strInt : ℤ → Text
  | .ofNat n => Text.ofNat n
  | .negSucc n => '-' :: Text.ofNat (n + 1)

/-- The coordinates within the topic, and the group's digest. -/
def suffixOf (digest : Text → Digest) (partition offset : ℤ) (group : Text) : Text :=
  '-' :: strInt partition ++ '-' :: strInt offset ++
    if group ≠ [] then "-g".toList ++ (digest group).text else []

/-- The topic, cut where the whole is longer than `MAX_CASE_ID_LENGTH`. -/
def headOf (digest : Text → Digest) (topic suffix : Text) : Text :=
  let head := "dlt-".toList ++ sanitise topic
  if 128 < (head ++ suffix).length then
    let room : ℤ := 128 - suffix.length - (digest topic).text.length - 3 - 2
    "dlt-".toList ++ (sanitise topic).take room.toNat ++ '-' :: (digest topic).text
  else head

/-- `derive_case_id`. -/
def deriveCaseId (digest : Text → Digest) (topic : Option Text) (partition offset : Option ℤ)
    (consumerGroup : Option Text) : Option Text :=
  match topic, partition, offset with
  | some topic, some partition, some offset =>
    let group := Text.strip (consumerGroup.getD [])
    let suffix := suffixOf digest partition offset group
    let caseId := headOf digest topic suffix ++ suffix
    if isValidCaseId caseId then some caseId else none
  | _, _, _ => none

/-- The coordinates of a record, with the group that gave up on it: what Kafka allows of a topic,
and one that does not look as if it ended in a digest. -/
structure Coordinates where
  topic : Text
  partition : ℕ
  offset : ℕ
  consumerGroup : Option Text
  topic_ne_nil : topic ≠ []
  topic_length : topic.length ≤ 249
  topic_legal : topic.all (fun c => c.isAlphanum || c ∈ ['.', '_', '-']) = true
  topic_plain : ∀ t hex, topic = t ++ '-' :: hex → hex.length = 10 → hex.all isHex = false
  partition_lt : partition < 2 ^ 32
  offset_lt : offset < 2 ^ 64

namespace Coordinates

variable (digest : Text → Digest) (r : Coordinates)

def group : Text := Text.strip (r.consumerGroup.getD [])

def caseId : Option Text :=
  deriveCaseId digest (some r.topic) (some r.partition) (some r.offset) r.consumerGroup

def suffix : Text := suffixOf digest r.partition r.offset r.group

/-- The texts of which a digest is taken for the record. -/
def digested : Set Text := {t | t = r.topic ∨ t = r.group ∨ r.caseId digest = some t}

end Coordinates

/-! ## Characters -/

theorem isHex_cases {c : Char} (h : isHex c = true) :
    idCharacter c = true ∧ c ≠ '-' := by
  have hall : "0123456789abcdef".toList.all (fun c => idCharacter c && c ≠ '-') = true := rfl
  simpa using List.all_eq_true.1 hall c (of_decide_eq_true h)

theorem isDigit_cases {n : ℕ} {c : Char} (h : c ∈ Text.ofNat n) :
    idCharacter c = true ∧ c ≠ '-' ∧ c ≠ '_' ∧ c ≠ 'g' := by
  have hdigit : c.isDigit = true := Nat.isDigit_of_mem_toDigits (by decide) (by decide) h
  refine ⟨?_, ?_, ?_, ?_⟩
  · simp [idCharacter, Char.isAlphanum, hdigit]
  all_goals
    rintro rfl
    exact absurd hdigit (by decide)

theorem dash_notMem_digest (d : Digest) : '-' ∉ d.text := fun h =>
  (isHex_cases (List.all_eq_true.1 d.hex _ h)).2 rfl

theorem dash_notMem_ofNat (n : ℕ) : '-' ∉ Text.ofNat n := fun h => (isDigit_cases h).2.1 rfl

theorem sanitise_of_legal {t : Text}
    (h : t.all (fun c => c.isAlphanum || c ∈ ['.', '_', '-']) = true) : sanitise t = t := by
  refine (List.map_congr_left fun c hc => ?_).trans (List.map_id t)
  have hlegal := List.all_eq_true.1 h c hc
  rw [if_pos]
  · rfl
  · simp only [idCharacter, Bool.or_eq_true, decide_eq_true_eq, List.mem_cons] at hlegal ⊢
    tauto

/-! ## The id is valid -/

theorem isValidCaseId_of_all {id : Text} (hne : id ≠ []) (hlength : id.length ≤ 128)
    (h : ∀ c ∈ id, idCharacter c = true) : isValidCaseId id = true := by
  have hlast : id.getLast? ≠ some '\n' := fun hlast =>
    absurd (h _ (List.mem_of_getLast? hlast)) (by decide)
  have hpos : 1 ≤ id.length := List.length_pos_of_ne_nil hne
  simp only [isValidCaseId, if_neg hlast, Bool.and_eq_true, decide_eq_true_eq]
  exact ⟨⟨hpos, hlength⟩, List.all_eq_true.2 h⟩

variable {digest : Text → Digest} {r r' : Coordinates}

theorem Coordinates.suffix_eq (r : Coordinates) :
    r.suffix digest = '-' :: Text.ofNat r.partition ++ '-' :: Text.ofNat r.offset ++
      if r.group ≠ [] then "-g".toList ++ (digest r.group).text else [] := rfl

theorem length_ofNat_le {n k : ℕ} (hk : 0 < k) (h : n < 10 ^ k) : (Text.ofNat n).length ≤ k :=
  (Nat.length_toDigits_le_iff (by decide) hk).2 h

/-- The coordinates leave room for the topic. -/
theorem Coordinates.length_suffix_le (digest : Text → Digest) (r : Coordinates) :
    (r.suffix digest).length ≤ 44 := by
  have hpartition : (Text.ofNat r.partition).length ≤ 10 :=
    length_ofNat_le (by decide) (Nat.lt_of_lt_of_le r.partition_lt (by decide))
  have hoffset : (Text.ofNat r.offset).length ≤ 20 :=
    length_ofNat_le (by decide) (Nat.lt_of_lt_of_le r.offset_lt (by decide))
  have hdigest := (digest r.group).length_eq
  rw [r.suffix_eq]
  split
  · simp only [List.length_append, List.length_cons, hdigest]
    have hg : "-g".toList.length = 2 := rfl
    omega
  · simp only [List.length_append, List.length_cons, List.length_nil]
    omega

/-- The two forms of the head. -/
theorem Coordinates.head_cases (digest : Text → Digest) (r : Coordinates) :
    let head := headOf digest r.topic (r.suffix digest)
    (head = "dlt-".toList ++ r.topic ∨ ∃ n, head =
      "dlt-".toList ++ (r.topic.take n ++ '-' :: (digest r.topic).text)) ∧
      (head ++ r.suffix digest).length ≤ 128 := by
  have hsuffix := r.length_suffix_le digest
  have hdigest := (digest r.topic).length_eq
  have hdlt : "dlt-".toList.length = 4 := rfl
  simp only [headOf, sanitise_of_legal r.topic_legal]
  split
  · refine ⟨.inr ⟨_, List.append_assoc _ _ _⟩, ?_⟩
    simp only [List.length_append, List.length_cons, List.length_take, hdigest, hdlt]
    omega
  · next hfits => exact ⟨.inl rfl, Nat.not_lt.1 hfits⟩

theorem Coordinates.idCharacter_suffix (r : Coordinates) :
    ∀ c ∈ r.suffix digest, idCharacter c = true := by
  intro c hc
  rw [r.suffix_eq] at hc
  simp only [List.mem_append, List.mem_cons] at hc
  rcases hc with ((rfl | hc) | rfl | hc) | hc
  · rfl
  · exact (isDigit_cases hc).1
  · rfl
  · exact (isDigit_cases hc).1
  · split at hc
    · rcases List.mem_append.1 hc with hc | hc
      · exact List.all_eq_true.1 (rfl : "-g".toList.all idCharacter = true) c hc
      · exact (isHex_cases (List.all_eq_true.1 (digest r.group).hex c hc)).1
    · exact absurd hc List.not_mem_nil

theorem Coordinates.idCharacter_topic (r : Coordinates) :
    ∀ c ∈ r.topic, idCharacter c = true := by
  intro c hc
  have hlegal := List.all_eq_true.1 r.topic_legal c hc
  simp only [idCharacter, Bool.or_eq_true, decide_eq_true_eq, List.mem_cons] at hlegal ⊢
  tauto

/-- **The id is derived and valid.** -/
theorem Coordinates.caseId_eq (digest : Text → Digest) (r : Coordinates) :
    r.caseId digest = some (headOf digest r.topic (r.suffix digest) ++ r.suffix digest) ∧
      isValidCaseId (headOf digest r.topic (r.suffix digest) ++ r.suffix digest) = true := by
  obtain ⟨hhead, hlength⟩ := r.head_cases digest
  have hdlt := List.all_eq_true.1 (rfl : "dlt-".toList.all idCharacter = true)
  have hchars : ∀ c ∈ headOf digest r.topic (r.suffix digest), idCharacter c = true := by
    intro c hc
    rcases hhead with hhead | ⟨n, hhead⟩ <;> rw [hhead] at hc
    · exact (List.mem_append.1 hc).elim (hdlt c) (r.idCharacter_topic c)
    · simp only [List.mem_append, List.mem_cons] at hc
      rcases hc with hc | hc | rfl | hc
      · exact hdlt c hc
      · exact r.idCharacter_topic c (List.mem_of_mem_take hc)
      · rfl
      · exact (isHex_cases (List.all_eq_true.1 (digest r.topic).hex c hc)).1
  have hvalid : isValidCaseId (headOf digest r.topic (r.suffix digest) ++ r.suffix digest) = true :=
    isValidCaseId_of_all (by rw [r.suffix_eq]; simp) hlength fun c hc =>
      (List.mem_append.1 hc).elim (hchars c) (r.idCharacter_suffix c)
  exact ⟨if_pos hvalid, hvalid⟩

/-! ## Reading an id from its right end -/

/-- The coordinates are told from the head, and the group from its digest. -/
theorem suffix_inj {head head' : Text} (h : head ++ r.suffix digest = head' ++ r'.suffix digest) :
    head = head' ∧ r.partition = r'.partition ∧ r.offset = r'.offset ∧
      (r.group = [] ↔ r'.group = []) ∧
        (r.group ≠ [] → (digest r.group).text = (digest r'.group).text) := by
  have hcoordinates : ∀ {p o p' o' : ℕ},
      head ++ ('-' :: Text.ofNat p ++ '-' :: Text.ofNat o) =
        head' ++ ('-' :: Text.ofNat p' ++ '-' :: Text.ofNat o') →
      head = head' ∧ p = p' ∧ o = o' := fun {p o p' o'} heq => by
    rw [← List.append_assoc, ← List.append_assoc] at heq
    obtain ⟨heq, ho⟩ := Text.append_cons_inj_of_last (dash_notMem_ofNat o) (dash_notMem_ofNat o') heq
    obtain ⟨hhead, hp⟩ := Text.append_cons_inj_of_last (dash_notMem_ofNat p) (dash_notMem_ofNat p') heq
    exact ⟨hhead, Text.ofNat_injective hp, Text.ofNat_injective ho⟩
  have hgrouped : ∀ d : Digest, '-' ∉ 'g' :: d.text := fun d hd => by
    rcases List.mem_cons.1 hd with hd | hd
    · exact absurd hd (by decide)
    · exact dash_notMem_digest d hd
  -- what follows the last dash is a digest with a g, or digits
  have hnot : ∀ {a b : Text} {d : Digest} {n : ℕ}, a ++ '-' :: ('g' :: d.text) ≠
      b ++ '-' :: Text.ofNat n := fun {a b d n} heq => by
    have hlast := (Text.append_cons_inj_of_last (hgrouped d) (dash_notMem_ofNat n) heq).2
    exact (isDigit_cases (hlast ▸ List.mem_cons_self)).2.2.2 rfl
  rw [r.suffix_eq, r'.suffix_eq] at h
  by_cases hg : r.group = [] <;> by_cases hg' : r'.group = []
  · rw [if_neg (not_not.2 hg), if_neg (not_not.2 hg'), List.append_nil, List.append_nil] at h
    obtain ⟨hhead, hp, ho⟩ := hcoordinates h
    exact ⟨hhead, hp, ho, iff_of_true hg hg', fun hne => absurd hg hne⟩
  · rw [if_neg (not_not.2 hg), if_pos hg', List.append_nil, ← List.append_assoc,
      ← List.append_assoc head'] at h
    exact absurd h.symm hnot
  · rw [if_pos hg, if_neg (not_not.2 hg'), List.append_nil, ← List.append_assoc,
      ← List.append_assoc head'] at h
    exact absurd h hnot
  · rw [if_pos hg, if_pos hg', ← List.append_assoc, ← List.append_assoc head'] at h
    obtain ⟨heq, hdigest⟩ := Text.append_cons_inj_of_last (hgrouped _) (hgrouped _) h
    obtain ⟨hhead, hp, ho⟩ := hcoordinates heq
    exact ⟨hhead, hp, ho, iff_of_false hg hg', fun _ => (List.cons.inj hdigest).2⟩

/-- A topic that is cut is told by its digest, and one that is whole does not look like one that is
cut. -/
theorem topic_inj
    (hhead : headOf digest r.topic (r.suffix digest) = headOf digest r'.topic (r'.suffix digest))
    (hinj : digest r.topic = digest r'.topic → r.topic = r'.topic) : r.topic = r'.topic := by
  have hplain : ∀ {r r' : Coordinates} {n : ℕ}, "dlt-".toList ++ r.topic ≠
      "dlt-".toList ++ (r'.topic.take n ++ '-' :: (digest r'.topic).text) := fun {r r' n} heq => by
    have hcut := r.topic_plain _ _ (List.append_cancel_left heq) (digest r'.topic).length_eq
    rw [(digest r'.topic).hex] at hcut
    cases hcut
  rcases (r.head_cases digest).1 with hr | ⟨n, hr⟩ <;>
    rcases (r'.head_cases digest).1 with hr' | ⟨n', hr'⟩ <;> rw [hr, hr'] at hhead
  · exact List.append_cancel_left hhead
  · exact absurd hhead hplain
  · exact absurd hhead.symm hplain
  · have hcut := List.append_cancel_left hhead
    have hdigests := Text.append_cons_inj_of_last (dash_notMem_digest _) (dash_notMem_digest _) hcut
    exact hinj (Digest.ext hdigests.2)

/-- **Two records with one case id are one record.** -/
theorem caseId_inj (hinj : Set.InjOn digest (r.digested digest ∪ r'.digested digest))
    (h : r.caseId digest = r'.caseId digest) :
    r.topic = r'.topic ∧ r.partition = r'.partition ∧ r.offset = r'.offset ∧
      r.group = r'.group := by
  have hid := Option.some.inj
    ((r.caseId_eq digest).1.symm.trans (h.trans (r'.caseId_eq digest).1))
  obtain ⟨hhead, hpartition, hoffset, hgroup, hdigest⟩ := suffix_inj hid
  refine ⟨topic_inj hhead fun heq => ?_, hpartition, hoffset, ?_⟩
  · exact hinj (.inl (.inl rfl)) (.inr (.inl rfl)) heq
  · by_cases hg : r.group = []
    · rw [hg, hgroup.1 hg]
    · exact hinj (.inl (.inr (.inl rfl))) (.inr (.inr (.inl rfl))) (Digest.ext (hdigest hg))

/-! ## Storage keys -/

/-- A storage key is the case id, or a refId and the digest of the case id. -/
theorem storageKey_cases (digest : Text → Text) (refId : Option Text) (caseId : Text) :
    storageKey digest refId caseId = caseId ∨
      ∃ ref, storageKey digest refId caseId = ref ++ "__".toList ++ digest caseId := by
  rw [storageKey]
  split
  · exact .inl rfl
  · next ref _ =>
    simp only
    split
    · exact .inr ⟨ref, rfl⟩
    · exact .inl rfl

/-- No id ends as the key of a case does: before its last ten digits there is no second
underscore. -/
theorem caseId_ne_key (r : Coordinates) (ref : Text) (d : Digest) :
    headOf digest r.topic (r.suffix digest) ++ r.suffix digest ≠ ref ++ "__".toList ++ d.text := by
  intro h
  rw [r.suffix_eq] at h
  by_cases hg : r.group = []
  · rw [if_neg (not_not.2 hg), List.append_nil, ← List.append_assoc] at h
    have hoffset : ∀ c ∈ '-' :: Text.ofNat r.offset, c ≠ '_' := fun c hc => by
      rcases List.mem_cons.1 hc with rfl | hc
      · decide
      · exact (isDigit_cases hc).2.2.1
    rcases List.append_eq_append_iff.1 h with ⟨c, hc, hoff⟩ | ⟨c, -, hd⟩
    · -- the digest is a part of the offset, and what is left of it ends in an underscore
      have hne : c ≠ [] := by
        rintro rfl
        have hdash : '-' ∈ '-' :: Text.ofNat r.offset := List.mem_cons_self
        rw [hoff] at hdash
        exact dash_notMem_digest d hdash
      have hlast := congrArg List.getLast? hc
      rw [List.getLast?_append_of_ne_nil _ hne, List.getLast?_append] at hlast
      exact hoffset '_' (hoff ▸ List.mem_append_left _ (List.mem_of_getLast? hlast.symm)) rfl
    · exact dash_notMem_digest d (hd ▸ List.mem_append_right _ List.mem_cons_self)
  · rw [if_pos hg, ← List.append_assoc, ← List.append_assoc] at h
    have hlengths := (digest r.group).length_eq.trans d.length_eq.symm
    have hends := (List.append_inj' h hlengths).1
    have hlast := congrArg List.getLast? hends
    rw [List.getLast?_append_of_ne_nil _ (by decide : "-g".toList ≠ []),
      List.getLast?_append_of_ne_nil _ (by decide : "__".toList ≠ [])] at hlast
    exact absurd hlast (by decide)

/-- **Two cases with one storage key are one case**, under whatever refIds. -/
theorem storageKey_inj (hinj : Set.InjOn digest (r.digested digest ∪ r'.digested digest))
    {c c' : Text} (hc : r.caseId digest = some c) (hc' : r'.caseId digest = some c')
    {ref ref' : Option Text}
    (h : storageKey (fun t => (digest t).text) ref c =
      storageKey (fun t => (digest t).text) ref' c') : c = c' := by
  have hid := Option.some.inj (hc.symm.trans (r.caseId_eq digest).1)
  have hid' := Option.some.inj (hc'.symm.trans (r'.caseId_eq digest).1)
  rcases storageKey_cases (fun t => (digest t).text) ref c with hkey | ⟨x, hkey⟩ <;>
    rcases storageKey_cases (fun t => (digest t).text) ref' c' with hkey' | ⟨x', hkey'⟩ <;>
    rw [hkey, hkey'] at h
  · exact h
  · rw [hid] at h
    exact absurd h (caseId_ne_key r x' _)
  · rw [hid'] at h
    exact absurd h.symm (caseId_ne_key r' x _)
  · have hlengths := (digest c).length_eq.trans (digest c').length_eq.symm
    have hdigests := (List.append_inj' h hlengths).2
    exact hinj (.inl (.inr (.inr hc))) (.inr (.inr (.inr hc'))) (Digest.ext hdigests)

/-- **Ids and keys are unique.** Every record has a valid case id; as far as the digest tells apart
the texts of two records that it is taken of, their ids are equal only if topic, partition, offset
and group are, and their storage keys only if the ids are. -/
theorem unique_per_record (digest : Text → Digest) (r r' : Coordinates) :
    (∃ c, r.caseId digest = some c ∧ isValidCaseId c = true) ∧
      (Set.InjOn digest (r.digested digest ∪ r'.digested digest) →
        (r.caseId digest = r'.caseId digest →
          r.topic = r'.topic ∧ r.partition = r'.partition ∧ r.offset = r'.offset ∧
            r.group = r'.group) ∧
          ∀ c c' ref ref', r.caseId digest = some c → r'.caseId digest = some c' →
            storageKey (fun t => (digest t).text) ref c =
              storageKey (fun t => (digest t).text) ref' c' → c = c') :=
  ⟨⟨_, r.caseId_eq digest⟩, fun hinj => ⟨caseId_inj hinj, fun _ _ _ _ hc hc' h =>
    storageKey_inj hinj hc hc' h⟩⟩

/-- The SHA-256 digests of the texts of two records. -/
def sha : Text → Digest := fun t =>
  if t = "orders".toList then ⟨"1c168adb00".toList, rfl, rfl⟩
  else if t = [] then ⟨"e3b0c44298".toList, rfl, rfl⟩
  else if t = "billing".toList then ⟨"0c95c7ece1".toList, rfl, rfl⟩
  else if t = "dlt-orders-0-7".toList then ⟨"bc5481b978".toList, rfl, rfl⟩
  else ⟨"61af4f32f9".toList, rfl, rfl⟩

/-- A record of the topic `orders` that a group gave up on. -/
def orders (consumerGroup : Option Text) : Coordinates where
  topic := "orders".toList
  partition := 0
  offset := 7
  consumerGroup := consumerGroup
  topic_ne_nil := by decide
  topic_length := by decide
  topic_legal := rfl
  topic_plain t hex h hlength := by
    have hshort := congrArg List.length h
    rw [List.length_append, List.length_cons, hlength] at hshort
    exact absurd hshort (by simp)
  partition_lt := by decide
  offset_lt := by decide

/-- The group tells two cases of one record apart. -/
theorem unique_per_record_orders :
    (orders none).caseId sha ≠ (orders (some " billing ".toList)).caseId sha := by
  let texts := ["orders".toList, [], "billing".toList, "dlt-orders-0-7".toList,
    "dlt-orders-0-7-g0c95c7ece1".toList]
  have hdigested : ∀ t ∈ (orders none).digested sha ∪
      (orders (some " billing ".toList)).digested sha, t ∈ texts := by
    rintro t ((rfl | rfl | ht) | rfl | rfl | ht)
    · decide
    · decide
    · obtain rfl : "dlt-orders-0-7".toList = t := Option.some.inj ht
      decide
    · decide
    · decide
    · obtain rfl : "dlt-orders-0-7-g0c95c7ece1".toList = t := Option.some.inj ht
      decide
  have happart : (texts.all fun t => texts.all fun t' =>
      decide ((sha t).text ≠ (sha t').text) || decide (t = t')) = true := by decide
  have hinj : Set.InjOn sha ((orders none).digested sha ∪
      (orders (some " billing ".toList)).digested sha) := fun t ht t' ht' heq => by
    have hpair := List.all_eq_true.1 (List.all_eq_true.1 happart t (hdigested t ht)) t'
      (hdigested t' ht')
    simpa [heq] using hpair
  intro h
  have hsame := ((unique_per_record sha _ _).2 hinj).1 h
  exact absurd hsame.2.2.2 (by decide)

end ResidentCrm.Dlt.Identity
