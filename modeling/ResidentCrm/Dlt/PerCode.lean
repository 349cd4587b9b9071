import ResidentCrm.Dlt.Finding
import ResidentCrm.Lib.Matches

/-!
# Findings that name their packet

`dlt/per_code.py`: the scan of a finding's texts for identifiers of its packet, and the use
`_analyze` makes of it before it caches the finding for its group. A UUID is found wherever it
stands as a word of its own; a long number is found where it does and no full stop stands next to it
(`withhold_iff`).

The phrasing patterns are counted and withhold nothing; their matches are parameters.
-/

namespace ResidentCrm.Dlt

/-- What of a finding is free text. The rest of what is cached with it is an action, numbers, flags
and the labels of its ceilings. -/
structure FindingTexts where
  narrative : Text
  recommendation : Text
  discrepancy : Option Text := none
deriving DecidableEq

namespace PerCode

inductive Severity where
  | identifier
  | phrasing
deriving DecidableEq, Repr

structure Violation where
  pattern : Text
  severity : Severity
  field : Text
  text : Text
deriving DecidableEq

/-! ## The patterns -/

def isHex (c : Char) : Bool :=
  ('0' ≤ c && c ≤ '9') || ('a' ≤ c && c ≤ 'f') || ('A' ≤ c && c ≤ 'F')

/-- Groups of 8, 4, 4, 4 and 12 hexadecimal digits. -/
def isUuid (w : Text) : Bool :=
  (w.splitOn '-').map List.length = [8, 4, 4, 4, 12] && (w.splitOn '-').all (·.all isHex)

/-- Twelve digits or more. -/
def isLongNumber (w : Text) : Bool := 12 ≤ w.length && w.all Text.isDigit

section

-- which characters beyond ASCII are letters, or digits that are not decimal
variable (letter : Char → Bool)

/-- `\\w`. -/
def isWord (c : Char) : Bool := Text.isDigit c || Text.isWord letter c

/-- `[\\w.]`. -/
def isGuard (c : Char) : Bool := isWord letter c || c = '.'

/-- A UUID between two `\\b`. -/
def uuid : Text.Pattern := fun prev s =>
  if prev.any (isWord letter) = false ∧ isUuid (s.take 36) = true ∧
      (s.drop 36).head?.any (isWord letter) = false then some 36 else none

/-- `(?<![\\w.])\\d{12,}(?![\\w.])`: no shorter run is followed by anything but a digit. -/
def longNumber : Text.Pattern := fun prev s =>
  let run := s.takeWhile Text.isDigit
  if prev.any (isGuard letter) = false ∧ 12 ≤ run.length ∧
      (s.drop run.length).head?.any (isGuard letter) = false then some run.length else none

structure Phrasing where
  thisPacket : Text.Pattern
  sourceLine : Text.Pattern

/-- `_PATTERNS`. -/
def patterns (phrasing : Phrasing) : List (Text × Severity × Text.Pattern) :=
  [("uuid".toList, .identifier, uuid letter),
    ("long_number".toList, .identifier, longNumber letter),
    ("this_packet".toList, .phrasing, phrasing.thisPacket),
    ("source_line".toList, .phrasing, phrasing.sourceLine)]

/-- The fields `check` scans. -/
def fields (f : FindingTexts) : List (Text × Text) :=
  [("narrative".toList, f.narrative), ("recommendation".toList, f.recommendation),
    ("discrepancy".toList, f.discrepancy.getD [])]

def check (phrasing : Phrasing) (f : FindingTexts) : List Violation :=
  (fields f).flatMap fun field => (patterns letter phrasing).flatMap fun p =>
    (Text.finditer p.2.2 field.2).map fun text => ⟨p.1, p.2.1, field.1, text⟩

/-- `Check.withhold`. -/
def withhold (enabled : Bool) (violations : List Violation) : Bool :=
  enabled && violations.any fun v => v.severity = .identifier

end

end PerCode

/-! ## Caching a finding -/

/-- What became of an agent's finding in the cache of its group. -/
inductive RecommendationState where
  | perOccurrence
  | withheld
  | draft
  | unpersisted
deriving DecidableEq, Repr

/-- An agent run at its end: what it found, against which verdict of the logs, and whether the write
to the group goes through. -/
structure AgentRun where
  texts : FindingTexts
  corroboration : Corroboration
  stored : Bool
deriving DecidableEq

/-- `recommendation_state` of `_analyze`, for a finding of an agent. -/
def AgentRun.recommendationState (letter : Char → Bool) (phrasing : PerCode.Phrasing)
    (enabled : Bool) (a : AgentRun) : RecommendationState :=
  if a.corroboration.isDiscrepancy then .perOccurrence
  else if PerCode.withhold enabled (PerCode.check letter phrasing a.texts) then .withheld
  else if a.stored then .draft
  else .unpersisted

/-! ## Words of their own -/

namespace PerCode

section

variable (letter : Char → Bool)

/-- What stands between `a` and `b` is a word of its own. -/
def OwnWord (a b : Text) : Prop :=
  a.getLast?.any (isWord letter) = false ∧ b.head?.any (isWord letter) = false

/-- A full stop stands next to it. -/
def BesideStop (a b : Text) : Prop := a.getLast? = some '.' ∨ b.head? = some '.'

/-- The text holds a UUID, or a maximal run of twelve digits or more, as a word of its own. -/
def NamesPacket (s : Text) : Prop :=
  ∃ a w b, s = a ++ (w ++ b) ∧ OwnWord letter a b ∧ (isUuid w = true ∨ isLongNumber w = true)

/-- It holds one that is a UUID or has no full stop next to it. -/
def NamesPlainly (s : Text) : Prop :=
  ∃ a w b, s = a ++ (w ++ b) ∧ OwnWord letter a b ∧
    (isUuid w = true ∨ isLongNumber w = true ∧ ¬ BesideStop a b)

end

section

variable {letter : Char → Bool}

theorem not_digit_of_not_word {c : Option Char} (h : c.any (isWord letter) = false) :
    c.any Text.isDigit = false := by
  cases c with
  | none => rfl
  | some c =>
    simp only [Option.any_some, isWord, Bool.or_eq_false_iff] at h ⊢
    exact h.1

theorem any_isGuard {c : Option Char} :
    c.any (isGuard letter) = false ↔ c.any (isWord letter) = false ∧ c ≠ some '.' := by
  cases c <;> simp [isGuard]

theorem length_of_isUuid {w : Text} (h : isUuid w = true) : w.length = 36 := by
  rw [isUuid, Bool.and_eq_true, decide_eq_true_eq] at h
  have hw : ['-'].intercalate (w.splitOn '-') = w := List.intercalate_splitOn '-'
  obtain ⟨a, l, hgroups, ha, h⟩ := List.map_eq_cons_iff.1 h.1
  obtain ⟨b, l, rfl, hb, h⟩ := List.map_eq_cons_iff.1 h
  obtain ⟨c, l, rfl, hc, h⟩ := List.map_eq_cons_iff.1 h
  obtain ⟨d, l, rfl, hd, h⟩ := List.map_eq_cons_iff.1 h
  obtain ⟨e, l, rfl, he, h⟩ := List.map_eq_cons_iff.1 h
  obtain rfl := List.map_eq_nil_iff.1 h
  rw [← hw, hgroups]
  simp [List.intercalate, ha, hb, hc, hd, he]

theorem uuid_found {s : Text} : Text.finditer (uuid letter) s ≠ [] ↔
    ∃ a w b, s = a ++ (w ++ b) ∧ OwnWord letter a b ∧ isUuid w = true := by
  rw [Text.finditer_ne_nil fun prev => by simp [uuid, isUuid]]
  constructor
  · rintro ⟨a, t, rfl, hmatch⟩
    unfold uuid at hmatch
    split at hmatch
    · next h => exact ⟨a, t.take 36, t.drop 36, by rw [List.take_append_drop], ⟨h.1, h.2.2⟩, h.2.1⟩
    · cases hmatch
  · rintro ⟨a, w, b, rfl, ⟨hbefore, hafter⟩, hw⟩
    refine ⟨a, w ++ b, rfl, ?_⟩
    have hlength := length_of_isUuid hw
    unfold uuid
    rw [List.take_left' hlength, List.drop_left' hlength, if_pos ⟨hbefore, hw, hafter⟩]
    rfl

theorem longNumber_found {s : Text} : Text.finditer (longNumber letter) s ≠ [] ↔
    ∃ a w b, s = a ++ (w ++ b) ∧ OwnWord letter a b ∧ isLongNumber w = true ∧ ¬ BesideStop a b := by
  rw [Text.finditer_ne_nil fun prev => by simp [longNumber]]
  constructor
  · rintro ⟨a, t, rfl, hmatch⟩
    simp only [longNumber] at hmatch
    split at hmatch
    · next h =>
      obtain ⟨hbefore, hlength, hafter⟩ := h
      have hdrop : t.drop (t.takeWhile Text.isDigit).length = t.dropWhile Text.isDigit := calc
        _ = (t.takeWhile Text.isDigit ++ t.dropWhile Text.isDigit).drop _ := by
          rw [List.takeWhile_append_dropWhile]
        _ = t.dropWhile Text.isDigit := List.drop_left
      rw [any_isGuard] at hbefore hafter
      refine ⟨a, t.takeWhile Text.isDigit, t.drop (t.takeWhile Text.isDigit).length, ?_,
        ⟨hbefore.1, hafter.1⟩, ?_, not_or.2 ⟨hbefore.2, hafter.2⟩⟩
      · rw [hdrop, List.takeWhile_append_dropWhile]
      · rw [isLongNumber, Bool.and_eq_true, decide_eq_true_eq]
        exact ⟨hlength, List.all_takeWhile⟩
    · cases hmatch
  · rintro ⟨a, w, b, rfl, ⟨hbefore, hafter⟩, hw, hstop⟩
    refine ⟨a, w ++ b, rfl, ?_⟩
    rw [isLongNumber, Bool.and_eq_true, decide_eq_true_eq, List.all_eq_true] at hw
    have hrun : (w ++ b).takeWhile Text.isDigit = w :=
      Text.takeWhile_append_of_head hw.2 (not_digit_of_not_word hafter)
    obtain ⟨hstopBefore, hstopAfter⟩ := not_or.1 hstop
    simp only [longNumber]
    rw [hrun, List.drop_left, if_pos ⟨any_isGuard.2 ⟨hbefore, hstopBefore⟩, hw.1,
      any_isGuard.2 ⟨hafter, hstopAfter⟩⟩]
    rfl

/-! ## What is withheld -/

/-- The violations that withhold are what the two patterns of identifiers find. -/
theorem exists_identifier {phrasing : Phrasing} {f : FindingTexts} :
    (∃ v ∈ check letter phrasing f, v.severity = .identifier) ↔
      ∃ field ∈ fields f, Text.finditer (uuid letter) field.2 ≠ [] ∨
        Text.finditer (longNumber letter) field.2 ≠ [] := by
  constructor
  · rintro ⟨v, hv, hseverity⟩
    obtain ⟨field, hfield, hv⟩ := List.mem_flatMap.1 hv
    obtain ⟨p, hp, hv⟩ := List.mem_flatMap.1 hv
    obtain ⟨text, htext, rfl⟩ := List.mem_map.1 hv
    refine ⟨field, hfield, ?_⟩
    simp only [patterns, List.mem_cons, List.not_mem_nil, or_false] at hp
    rcases hp with rfl | rfl | rfl | rfl
    · exact .inl (List.ne_nil_of_mem htext)
    · exact .inr (List.ne_nil_of_mem htext)
    · cases hseverity
    · cases hseverity
  · have hviolation : ∀ field ∈ fields f, ∀ p ∈ patterns letter phrasing, p.2.1 = .identifier →
        Text.finditer p.2.2 field.2 ≠ [] →
          ∃ v ∈ check letter phrasing f, v.severity = .identifier := by
      intro field hfield p hp hseverity hfound
      obtain ⟨text, htext⟩ := List.exists_mem_of_ne_nil _ hfound
      exact ⟨⟨p.1, p.2.1, field.1, text⟩, List.mem_flatMap.2 ⟨field, hfield,
        List.mem_flatMap.2 ⟨p, hp, List.mem_map.2 ⟨text, htext, rfl⟩⟩⟩, hseverity⟩
    rintro ⟨field, hfield, hfound | hfound⟩
    · exact hviolation field hfield _ (.head _) rfl hfound
    · exact hviolation field hfield _ (.tail _ (.head _)) rfl hfound

theorem namesPlainly_iff {s : Text} : NamesPlainly letter s ↔
    Text.finditer (uuid letter) s ≠ [] ∨ Text.finditer (longNumber letter) s ≠ [] := by
  rw [uuid_found, longNumber_found]
  constructor
  · rintro ⟨a, w, b, hs, hown, hw | ⟨hw, hstop⟩⟩
    · exact .inl ⟨a, w, b, hs, hown, hw⟩
    · exact .inr ⟨a, w, b, hs, hown, hw, hstop⟩
  · rintro (⟨a, w, b, hs, hown, hw⟩ | ⟨a, w, b, hs, hown, hw, hstop⟩)
    · exact ⟨a, w, b, hs, hown, .inl hw⟩
    · exact ⟨a, w, b, hs, hown, .inr ⟨hw, hstop⟩⟩

/-- **A finding is withheld** where one of its texts names the packet plainly. -/
theorem withhold_iff {phrasing : Phrasing} {f : FindingTexts} :
    withhold true (check letter phrasing f) = true ↔
      ∃ field ∈ fields f, NamesPlainly letter field.2 := by
  simp only [withhold, Bool.true_and, List.any_eq_true, decide_eq_true_eq, exists_identifier,
    namesPlainly_iff]

end

end PerCode

end ResidentCrm.Dlt
