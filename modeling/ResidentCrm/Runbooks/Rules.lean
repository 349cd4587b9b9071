import ResidentCrm.Lib.Json

/-!
# The rules of a reason code

`lookup_rule_for` of `tools/tool_registry.py` over a rules database that can be read, with its
cache, and `generate_rule_fingerprint` of `utils/runbook_store.py`. A row is what `json.loads` makes
of it.
-/

namespace ResidentCrm

namespace Runbooks

/-! ## Enrolment types -/

/-- `str(value).strip().upper()`. -/
def cleaned (value : Text) : Text := Text.upper (Text.strip value)

/-- `_ENROLMENT_TYPE_ALIASES`. -/
def enrolmentTypeAliases : List (Text × Text) :=
  [("U".toList, "UPDATE".toList), ("UPDATE".toList, "UPDATE".toList),
    ("N".toList, "ENROLMENT".toList), ("E".toList, "ENROLMENT".toList),
    ("ENROLMENT".toList, "ENROLMENT".toList), ("ENROLLMENT".toList, "ENROLMENT".toList)]

/-- `tool_registry.normalize_enrolment_type`; a type that is missing is the empty text. -/
def normalizeEnrolmentType (value : Text) : Option Text :=
  if value = [] then none else enrolmentTypeAliases.lookup (cleaned value)

/-- The pack's own filter, or the aliases. -/
def targetType (typeFilter : Option (Text → Option Text)) (etype : Text) : Option Text :=
  match typeFilter with
  | some filter => if etype = [] then none else filter (cleaned etype)
  | none => normalizeEnrolmentType etype

/-! ## The lookup -/

section

variable (loads : Text → Option Json)

/-- `rule_data.statement.Condition.StringEquals.enrolmentType`; `none` where reading it raises, and
`null` where the last dict has no such key. -/
def ruleEnrolmentType (rule : Record) : Option Json :=
  match (rule.get "rule_data".toList).getD (.string "{}".toList) with
  | .string text => do
    let data ← loads text
    let statement ← data.get "statement".toList
    let condition ← statement.get "Condition".toList
    match ← condition.get "StringEquals".toList with
    | .object items => some ((items.lookup "enrolmentType".toList).getD (.scalar .null))
    | _ => none
  | _ => none

/-- The rule is for the type, for every type, or not readable. -/
def isFor (target : Text) (rule : Record) : Bool :=
  match ruleEnrolmentType loads rule with
  | none => true
  | some found => found.isText target || found.isFalsy

/-- `_parse_and_filter_rules` of the rows found. -/
def parseAndFilterRules (typeFilter : Option (Text → Option Text)) (etype : Text)
    (rules : List Record) : Option (List Record) :=
  if rules = [] then none
  else match targetType typeFilter etype with
    | none => some rules
    | some target =>
      if target = [] then some rules
      else
        let filtered := rules.filter (isFor loads target)
        some (if filtered = [] then rules else filtered)

/-- `_lookup_rule_json`: the cached rows, or those the database has for the code. -/
def lookupRuleJson (hasCode : Record → Text → Bool) (cached : Text → Option (List Record))
    (table : List Record) (reasonCode : Text) : List Record :=
  (cached reasonCode).getD (table.filter (hasCode · reasonCode))

/-- A rules database as a process sees it: what a row's code is compared with, what the process has
cached, and the rows. -/
structure Database where
  hasCode : Record → Text → Bool
  cached : Text → Option (List Record)
  table : List Record

/-- The rows there are for a code. -/
def Database.rows (db : Database) (reasonCode : Text) : List Record :=
  lookupRuleJson db.hasCode db.cached db.table reasonCode

def lookupRuleFor (db : Database) (typeFilter : Option (Text → Option Text))
    (reasonCode etype : Text) : Option (List Record) :=
  parseAndFilterRules loads typeFilter etype (db.rows reasonCode)

/-- A type is not shown a row that is not for it, where another of the rows is. -/
def hidden (target : Option Text) (rows : List Record) (rule : Record) : Bool :=
  match target with
  | none => false
  | some type => type ≠ [] && !isFor loads type rule && rows.any (isFor loads type)

/-- The rows that a type is shown. -/
def shown (target : Option Text) (rows : List Record) : List Record :=
  rows.filter (!hidden loads target rows ·)

end

/-- `generate_rule_fingerprint`. -/
def generateRuleFingerprint (sha256 : Text → Text) (rules : List Record) : Text :=
  "sha256:".toList ++ sha256 (dumps rules)

section

variable {loads : Text → Option Json} {typeFilter : Option (Text → Option Text)} {etype : Text}
  {rules found : List Record} {sha256 : Text → Text}

/-- **A lookup finds nothing exactly where there is no row for the code**, whatever the type. -/
theorem parseAndFilterRules_eq_none_iff :
    parseAndFilterRules loads typeFilter etype rules = none ↔ rules = [] := by
  unfold parseAndFilterRules
  split
  · next hrules => exact iff_of_true rfl hrules
  · next hrules =>
    refine iff_of_false (fun h => ?_) hrules
    split at h
    · cases h
    · split at h <;> cases h

/-- **The rows found are those that the type is shown.** -/
theorem parseAndFilterRules_eq (hrules : rules ≠ []) :
    parseAndFilterRules loads typeFilter etype rules =
      some (shown loads (targetType typeFilter etype) rules) := by
  have hall : ∀ target, (∀ rule ∈ rules, hidden loads target rules rule = false) →
      shown loads target rules = rules := by
    intro target h
    exact List.filter_eq_self.2 fun rule hrule => by rw [h rule hrule]; rfl
  unfold parseAndFilterRules
  rw [if_neg hrules]
  cases targetType typeFilter etype with
  | none => rw [hall none fun _ _ => rfl]
  | some target =>
    dsimp only
    by_cases htarget : target = []
    · rw [if_pos htarget, hall (some target) fun _ _ => by simp [hidden, htarget]]
    rw [if_neg htarget]
    by_cases hnone : rules.filter (isFor loads target) = []
    · have hany : rules.any (isFor loads target) = false := by
        rw [List.any_eq_false]
        exact List.filter_eq_nil_iff.1 hnone
      rw [if_pos hnone, hall (some target) fun _ _ => by simp [hidden, hany]]
    · have hany : rules.any (isFor loads target) = true := by
        obtain ⟨rule, hrule⟩ := List.exists_mem_of_ne_nil _ hnone
        exact List.any_eq_true.2 ⟨rule, List.mem_filter.1 hrule⟩
      rw [if_neg hnone]
      refine congrArg some (List.filter_congr fun rule _ => ?_)
      simp [hidden, hany, htarget]

/-- Of rows there are, some are shown. -/
theorem shown_ne_nil {target : Option Text} (hrules : rules ≠ []) : shown loads target rules ≠ [] := by
  obtain ⟨rule, hrule⟩ := List.exists_mem_of_ne_nil _ hrules
  intro hnil
  have hhidden : ∀ rule ∈ rules, hidden loads target rules rule = true := by
    simpa [shown] using hnil
  cases target with
  | none => cases hhidden rule hrule
  | some target =>
    have hfor := hhidden rule hrule
    simp only [hidden, Bool.and_eq_true, List.any_eq_true] at hfor
    obtain ⟨-, other, hother, hisFor⟩ := hfor
    have := hhidden other hother
    simp [hidden, hisFor] at this

/-- Of the same rows two types are shown as many of each exactly where one is shown what the other
is. -/
theorem shown_perm_iff {target target' : Option Text} :
    (shown loads target rules).Perm (shown loads target' rules) ↔
      ∀ rule ∈ rules, hidden loads target rules rule = hidden loads target' rules rule := by
  constructor
  · intro h rule hrule
    refine Bool.eq_iff_iff.2 (not_iff_not.1 ?_)
    have hmem := h.mem_iff (a := rule)
    simpa [shown, hrule] using hmem
  · intro h
    refine List.Perm.of_eq (List.filter_congr fun rule hrule => ?_)
    rw [h rule hrule]

theorem shown_eq_iff {target target' : Option Text} :
    shown loads target rules = shown loads target' rules ↔
      ∀ rule ∈ rules, hidden loads target rules rule = hidden loads target' rules rule := by
  refine ⟨fun h => shown_perm_iff.1 (List.Perm.of_eq h), fun h => ?_⟩
  refine List.filter_congr fun rule hrule => ?_
  rw [h rule hrule]

/-- Fingerprints that agree are of the same rows in the same order, where the digest does not
collide on their texts. -/
theorem generateRuleFingerprint_inj {rules' : List Record}
    (hdigest : sha256 (dumps rules) = sha256 (dumps rules') → dumps rules = dumps rules') :
    generateRuleFingerprint sha256 rules = generateRuleFingerprint sha256 rules' ↔
      rules = rules' := by
  constructor
  · intro h
    exact dumps_injective (hdigest (List.append_cancel_left h))
  · rintro rfl
    rfl

end

end Runbooks

end ResidentCrm
