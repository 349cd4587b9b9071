import ResidentCrm.Runbooks.Rules
import Mathlib.Data.Multiset.Basic

/-!
# When a stored runbook is served

`get_runbook` and `check_runbook` of `utils/runbook_store.py`, `binding_for` of
`tools/build_runbooks.py` and the staleness check of `runbook_lookup_node`. A runbook is bound to
the rows its builder looked up, or where its service has no rules table to its documentation; the
node looks them up again, for the packet, before it serves the runbook.
-/

namespace ResidentCrm

namespace Runbooks

inductive RuleSource where
  | rulesDb
  | none
deriving DecidableEq, Repr

inductive BindingType where
  | dbRule
  | reasonCodeDoc
deriving DecidableEq, Repr

structure Binding where
  type : BindingType
  fingerprint : Text
deriving DecidableEq

inductive SchemaVersion where
  | current
  | legacy
  | other
deriving DecidableEq, Repr

/-- A runbook as it is kept: what of it `check_runbook` and `binding_of` read. -/
structure Runbook where
  schemaVersion : SchemaVersion
  service : Option Text
  binding : Option Binding
  ruleFingerprint : Option Text
  isFinal : Bool
  hasResolution : Bool
deriving DecidableEq

/-! ## The store -/

/-- `runbook_store.normalize_enrolment_type`. -/
def normalizedType (etype : Text) : Text := if etype = [] then "ANY".toList else cleaned etype

/-- The key of the cache, and the path of the file but for its directory and suffix. -/
def runbookCacheKey (service reasonCode etype : Text) : Text :=
  service ++ "/".toList ++ reasonCode ++ "__".toList ++ normalizedType etype

/-- The text up to a line feed it ends with, as `$` matches it. -/
def chomp (s : Text) : Text := if s.getLast? = some '\n' then s.dropLast else s

/-- `REASON_CODE_PATTERN`. -/
def isReasonCode (s : Text) : Bool :=
  (chomp s).all (fun c => c.isAlphanum || c ∈ ['_', '.', ':', '-']) &&
    1 ≤ (chomp s).length && (chomp s).length ≤ 128

/-- `is_service_name`. -/
def isServiceName (s : Text) : Bool :=
  match chomp s with
  | [] => false
  | c :: l => c.isLower && l.all (fun c => c.isLower || c.isDigit || c = '-') && l.length ≤ 63

def preRegistryPack : Text := "enu-biometric".toList

def checkRunbook (runbook : Runbook) (service : Text) : Bool :=
  (match runbook.schemaVersion with
    | .current => runbook.service = some service &&
        runbook.binding.any fun binding => binding.fingerprint ≠ []
    | .legacy => service = preRegistryPack &&
        (runbook.service = none || runbook.service = some service)
    | .other => false) && runbook.isFinal && runbook.hasResolution

/-- The cached runbooks and the files, by key. -/
structure Store where
  cached : Text → Option Runbook
  files : Text → Option Runbook

def candidates (etype : Text) : List Text :=
  if normalizedType etype = "ANY".toList then [normalizedType etype]
  else [normalizedType etype, "ANY".toList]

def getRunbook (store : Store) (service reasonCode etype : Text) : Option Runbook :=
  if isReasonCode reasonCode && isServiceName service then
    (candidates etype).findSome? fun candidate =>
      let key := runbookCacheKey service reasonCode candidate
      (store.cached key).or ((store.files key).filter (checkRunbook · service))
  else none

def bindingOf (runbook : Runbook) : BindingType × Option Text :=
  match runbook.binding with
  | some binding => (binding.type, some binding.fingerprint)
  | none => (.dbRule, runbook.ruleFingerprint)

/-! ## The builder and the node -/

section

variable (loads : Text → Option Json) (sha256 : Text → Text)
  (typeFilter : Option (Text → Option Text))

/-- `binding_for`; `doc` is the fingerprint of the service's own documentation of the code. -/
def bindingFor (source : RuleSource) (db : Database) (doc : Option Text)
    (reasonCode etype : Text) : Option Binding :=
  match source with
  | .rulesDb => (lookupRuleFor loads db typeFilter reasonCode etype).map fun rules =>
      ⟨.dbRule, generateRuleFingerprint sha256 rules⟩
  | .none => doc.map fun fingerprint => ⟨.reasonCodeDoc, fingerprint⟩

/-- The runbook built with the binding, promoted. -/
def promoted (service : Text) (binding : Binding) : Runbook where
  schemaVersion := .current
  service := some service
  binding := some binding
  ruleFingerprint := none
  isFinal := true
  hasResolution := true

/-- What `runbook_lookup_node` makes of its lookup, before the mode and the allowlist. -/
inductive Lookup where
  | miss
  | fingerprintMismatch
  | bindingUnavailable
  | passes (runbook : Runbook)
deriving DecidableEq

/-- A fingerprint that is there and differs is a mismatch. -/
def compared (runbook : Runbook) (fingerprint current : Option Text) : Lookup :=
  if current ≠ none ∧ current ≠ fingerprint then .fingerprintMismatch else .passes runbook

def runbookLookup (source : RuleSource) (db : Database) (doc : Option Text) (store : Store)
    (pack reasonCode packetType : Text) : Lookup :=
  match getRunbook store pack reasonCode packetType with
  | none => .miss
  | some runbook =>
    let (type, fingerprint) := bindingOf runbook
    match source with
    | .rulesDb =>
      if type ≠ .dbRule then .fingerprintMismatch
      else compared runbook fingerprint
        ((lookupRuleFor loads db typeFilter reasonCode packetType).map
          (generateRuleFingerprint sha256))
    | .none =>
      if type ≠ .reasonCodeDoc then .fingerprintMismatch
      else if doc = none then .bindingUnavailable
      else compared runbook fingerprint doc

end

/-! ## What is promised, and when -/

/-- The same rows, in some order, or none in both. -/
def SameRows (found found' : Option (List Record)) : Prop :=
  found.map (Multiset.ofList ·) = found'.map (Multiset.ofList ·)

section

variable (loads : Text → Option Json) (typeFilter : Option (Text → Option Text))
  (before now : Database) (reasonCode etype reasonCode' packetType : Text)

/-- Of the rows that the runbook's type is shown, none was added, edited or deleted. -/
def Unchanged : Prop :=
  (shown loads (targetType typeFilter etype) (now.rows reasonCode)).Perm
    (shown loads (targetType typeFilter etype) (before.rows reasonCode))

/-- They are in the order they were in as well. -/
def InOrder : Prop :=
  shown loads (targetType typeFilter etype) (now.rows reasonCode) =
    shown loads (targetType typeFilter etype) (before.rows reasonCode)

/-- The packet's type is shown the rows that the runbook's type was shown, in their order. -/
def ShownAsBuilt : Prop :=
  shown loads (targetType typeFilter packetType) (now.rows reasonCode') =
    shown loads (targetType typeFilter etype) (before.rows reasonCode)

/-- The packet's type and the runbook's are shown the same rows of the runbook's code. -/
def ShownAlike : Prop :=
  ∀ rule ∈ now.rows reasonCode,
    hidden loads (targetType typeFilter packetType) (now.rows reasonCode) rule =
      hidden loads (targetType typeFilter etype) (now.rows reasonCode) rule

/-- What the tables and the packet's type must be like for the check to follow the rules. A packet
of the runbook's code: rows of it are left, those that did not change are in their order, and no row
is shown to one of the two types alone, unless both are shown other rows than were there. A packet
of another code, to which the runbook's key is one of its own: the runbook's rows did not change, and
the other code has none or its packet is shown just these; or they did, and it is shown others. -/
inductive Followed : Prop
  | own : reasonCode' = reasonCode → now.rows reasonCode ≠ [] →
      (Unchanged loads typeFilter before now reasonCode etype →
        InOrder loads typeFilter before now reasonCode etype) →
      (ShownAlike loads typeFilter now reasonCode etype packetType ∨
        ¬ Unchanged loads typeFilter before now reasonCode etype ∧
          ¬ ShownAsBuilt loads typeFilter before now reasonCode etype reasonCode' packetType) →
      Followed
  | foreignSame : reasonCode' ≠ reasonCode →
      Unchanged loads typeFilter before now reasonCode etype →
      now.rows reasonCode' = [] ∨
        ShownAsBuilt loads typeFilter before now reasonCode etype reasonCode' packetType →
      Followed
  | foreignOther : reasonCode' ≠ reasonCode →
      ¬ Unchanged loads typeFilter before now reasonCode etype → now.rows reasonCode' ≠ [] →
      ¬ ShownAsBuilt loads typeFilter before now reasonCode etype reasonCode' packetType →
      Followed

end

section

variable {loads : Text → Option Json} {sha256 : Text → Text}
  {typeFilter : Option (Text → Option Text)} {before now : Database} {doc doc' : Option Text}
  {store : Store} {service reasonCode reasonCode' etype packetType : Text} {binding : Binding}

theorem compared_passes_iff {runbook : Runbook} {fingerprint current : Option Text} :
    compared runbook fingerprint current = .passes runbook ↔
      current = none ∨ current = fingerprint := by
  unfold compared
  split
  · next h => exact iff_of_false nofun fun h' => h'.elim h.1 h.2
  · next h =>
    refine iff_of_true rfl ?_
    by_cases hnone : current = none
    · exact .inl hnone
    · exact .inr (not_not.1 fun hne => h ⟨hnone, hne⟩)

/-- The node passes a runbook bound to rows exactly where it sees none, or these. -/
theorem runbookLookup_passes_iff
    (hbuilt : bindingFor loads sha256 typeFilter .rulesDb before doc reasonCode etype =
      some binding)
    (hget : getRunbook store service reasonCode' packetType = some (promoted service binding))
    (hdigest : ∀ rules ∈ lookupRuleFor loads before typeFilter reasonCode etype,
      ∀ rules' ∈ lookupRuleFor loads now typeFilter reasonCode' packetType,
        sha256 (dumps rules') = sha256 (dumps rules) → dumps rules' = dumps rules) :
    runbookLookup loads sha256 typeFilter .rulesDb now doc' store service reasonCode'
        packetType = .passes (promoted service binding) ↔
      lookupRuleFor loads now typeFilter reasonCode' packetType = none ∨
        lookupRuleFor loads now typeFilter reasonCode' packetType =
          lookupRuleFor loads before typeFilter reasonCode etype := by
  obtain ⟨rules, hrules, rfl⟩ := Option.map_eq_some_iff.1 hbuilt
  simp only [runbookLookup, hget, bindingOf, promoted, ne_eq, not_true_eq_false, if_false]
  rw [compared_passes_iff, hrules]
  cases hseen : lookupRuleFor loads now typeFilter reasonCode' packetType with
  | none => simp
  | some rules' =>
    have hinj := generateRuleFingerprint_inj (hdigest rules hrules rules' hseen)
    simp only [Option.map_some, Option.some.injEq, reduceCtorEq, false_or]
    exact hinj

/-- The rows of build time, and there are some. -/
theorem found_before (hbuilt : bindingFor loads sha256 typeFilter .rulesDb before doc reasonCode
    etype = some binding) : lookupRuleFor loads before typeFilter reasonCode etype =
      some (shown loads (targetType typeFilter etype) (before.rows reasonCode)) := by
  obtain ⟨rules, hrules, -⟩ := Option.map_eq_some_iff.1 hbuilt
  refine parseAndFilterRules_eq fun hnil => ?_
  rw [lookupRuleFor, parseAndFilterRules_eq_none_iff.2 hnil] at hrules
  cases hrules

theorem sameRows_iff_unchanged (hbuilt : bindingFor loads sha256 typeFilter .rulesDb before doc
    reasonCode etype = some binding) :
    SameRows (lookupRuleFor loads now typeFilter reasonCode etype)
        (lookupRuleFor loads before typeFilter reasonCode etype) ↔
      now.rows reasonCode ≠ [] ∧ Unchanged loads typeFilter before now reasonCode etype := by
  rw [found_before hbuilt, SameRows]
  by_cases hrows : now.rows reasonCode = []
  · rw [lookupRuleFor, parseAndFilterRules_eq_none_iff.2 hrows]
    exact iff_of_false nofun fun h => h.1 hrows
  · rw [lookupRuleFor, parseAndFilterRules_eq hrows, and_iff_right hrows, Option.map_some,
      Option.map_some, Option.some.injEq, Multiset.coe_eq_coe, Unchanged]

/-- Build time had rows to show, so what is unchanged has. -/
theorem Unchanged.rows_ne_nil (h : Unchanged loads typeFilter before now reasonCode etype)
    (hbuilt : bindingFor loads sha256 typeFilter .rulesDb before doc reasonCode etype =
      some binding) : now.rows reasonCode ≠ [] := by
  have hbefore : before.rows reasonCode ≠ [] := by
    intro hnil
    have hfound := found_before hbuilt
    rw [lookupRuleFor, parseAndFilterRules_eq_none_iff.2 hnil] at hfound
    cases hfound
  intro hnil
  rw [Unchanged, hnil] at h
  exact shown_ne_nil hbefore (List.nil_perm.1 h)

theorem runbookLookup_passes_iff_shown
    (hbuilt : bindingFor loads sha256 typeFilter .rulesDb before doc reasonCode etype =
      some binding)
    (hget : getRunbook store service reasonCode' packetType = some (promoted service binding))
    (hdigest : ∀ rules ∈ lookupRuleFor loads before typeFilter reasonCode etype,
      ∀ rules' ∈ lookupRuleFor loads now typeFilter reasonCode' packetType,
        sha256 (dumps rules') = sha256 (dumps rules) → dumps rules' = dumps rules) :
    runbookLookup loads sha256 typeFilter .rulesDb now doc' store service reasonCode'
        packetType = .passes (promoted service binding) ↔
      now.rows reasonCode' = [] ∨
        ShownAsBuilt loads typeFilter before now reasonCode etype reasonCode' packetType := by
  rw [runbookLookup_passes_iff hbuilt hget hdigest, found_before hbuilt]
  by_cases hrows : now.rows reasonCode' = []
  · rw [lookupRuleFor, parseAndFilterRules_eq_none_iff.2 hrows]
    exact iff_of_true (.inl rfl) (.inl hrows)
  · rw [lookupRuleFor, parseAndFilterRules_eq hrows, or_iff_right (Option.some_ne_none _),
      or_iff_right hrows, Option.some.injEq, ShownAsBuilt]

/-- **A runbook passes its check exactly where its rules are current, exactly where the check
follows the tables.** -/
theorem served_iff_current_iff
    (hbuilt : bindingFor loads sha256 typeFilter .rulesDb before doc reasonCode etype =
      some binding)
    (hget : getRunbook store service reasonCode' packetType = some (promoted service binding))
    (hdigest : ∀ rules ∈ lookupRuleFor loads before typeFilter reasonCode etype,
      ∀ rules' ∈ lookupRuleFor loads now typeFilter reasonCode' packetType,
        sha256 (dumps rules') = sha256 (dumps rules) → dumps rules' = dumps rules) :
    (runbookLookup loads sha256 typeFilter .rulesDb now doc' store service reasonCode'
          packetType = .passes (promoted service binding) ↔
        SameRows (lookupRuleFor loads now typeFilter reasonCode etype)
          (lookupRuleFor loads before typeFilter reasonCode etype)) ↔
      Followed loads typeFilter before now reasonCode etype reasonCode' packetType := by
  rw [runbookLookup_passes_iff_shown hbuilt hget hdigest, sameRows_iff_unchanged hbuilt,
    and_iff_right_of_imp fun h => h.rows_ne_nil hbuilt]
  by_cases hcode : reasonCode' = reasonCode
  · subst hcode
    constructor
    · intro h
      have hrows : now.rows reasonCode' ≠ [] := fun hnil =>
        (h.1 (.inl hnil)).rows_ne_nil hbuilt hnil
      rw [or_iff_right hrows] at h
      have halike : Unchanged loads typeFilter before now reasonCode' etype →
          ShownAlike loads typeFilter now reasonCode' etype packetType := by
        intro hunchanged
        have hshown := h.2 hunchanged
        exact shown_perm_iff.1 ((List.Perm.of_eq hshown).trans hunchanged.symm)
      refine .own rfl hrows (fun hunchanged => ?_) ?_
      · exact (shown_eq_iff.2 (halike hunchanged)).symm.trans (h.2 hunchanged)
      · by_cases hunchanged : Unchanged loads typeFilter before now reasonCode' etype
        · exact .inl (halike hunchanged)
        · exact .inr ⟨hunchanged, fun hshown => hunchanged (h.1 hshown)⟩
    · rintro (⟨-, hrows, horder, halike | ⟨hchanged, hshown⟩⟩ | ⟨hne, -, -⟩ | ⟨hne, -, -⟩)
      · rw [or_iff_right hrows, ShownAsBuilt, shown_eq_iff.2 halike]
        exact ⟨List.Perm.of_eq, horder⟩
      · exact iff_of_false (fun h => h.elim hrows hshown) hchanged
      · exact absurd rfl hne
      · exact absurd rfl hne
  · constructor
    · intro h
      by_cases hunchanged : Unchanged loads typeFilter before now reasonCode etype
      · exact .foreignSame hcode hunchanged (h.2 hunchanged)
      · obtain ⟨hrows, hshown⟩ := not_or.1 (mt h.1 hunchanged)
        exact .foreignOther hcode hunchanged hrows hshown
    · rintro (⟨heq, -, -, -⟩ | ⟨-, hunchanged, hshown⟩ | ⟨-, hchanged, hrows, hshown⟩)
      · exact absurd heq hcode
      · exact iff_of_true hshown hunchanged
      · exact iff_of_false (fun h => h.elim hrows hshown) hchanged

end

/-! ## Rules that are gone -/

def oneRule : Record where
  items := [("reject_reason_code".toList, .string "R1".toList),
    ("ruleId".toList, .number ⟨['1'], by decide, by simp [isNumeric]⟩)]
  sorted := by decide

def ruleTable (table : List Record) : Database where
  hasCode rule code := rule.get "reject_reason_code".toList = some (.string code)
  cached _ := none
  table := table

def emptyObject (text : Text) : Option Json :=
  if text = "{}".toList then some (.object []) else none

/-- The digest of the one rule's text. -/
def digestOf (text : Text) : Text :=
  if text = dumps [oneRule] then
    "6ad34d49dbdc5a1639ab71f0ed36908eab4f189a5518713ca7c7b26861b78f6a".toList
  else text

def oneBinding : Binding :=
  ⟨.dbRule, "sha256:6ad34d49dbdc5a1639ab71f0ed36908eab4f189a5518713ca7c7b26861b78f6a".toList⟩

def oneRunbook : Store where
  cached _ := none
  files key := if key = "enu-biometric/R1__U".toList then
    some (promoted preRegistryPack oneBinding) else none

theorem one_bound : bindingFor emptyObject digestOf none .rulesDb (ruleTable [oneRule]) none
    "R1".toList "U".toList = some oneBinding := by decide

theorem one_found :
    getRunbook oneRunbook preRegistryPack "R1".toList "u".toList =
      some (promoted preRegistryPack oneBinding) := by decide

theorem served_iff_current_iff_unchanged :
    (runbookLookup emptyObject digestOf none .rulesDb (ruleTable [oneRule]) none oneRunbook
          preRegistryPack "R1".toList "u".toList = .passes (promoted preRegistryPack oneBinding) ↔
        SameRows (lookupRuleFor emptyObject (ruleTable [oneRule]) none "R1".toList "U".toList)
          (lookupRuleFor emptyObject (ruleTable [oneRule]) none "R1".toList "U".toList)) ↔
      Followed emptyObject none (ruleTable [oneRule]) (ruleTable [oneRule]) "R1".toList "U".toList
        "R1".toList "u".toList := by
  have hsame : lookupRuleFor emptyObject (ruleTable [oneRule]) none "R1".toList "u".toList =
      lookupRuleFor emptyObject (ruleTable [oneRule]) none "R1".toList "U".toList := by decide
  refine served_iff_current_iff one_bound one_found fun rules hrules rules' hrules' _ => ?_
  rw [hsame] at hrules'
  rw [Option.mem_unique hrules hrules']

/-- The rule the runbook was built from is deleted, and the runbook still passes. -/
theorem deleted_rule_served :
    bindingFor emptyObject digestOf none .rulesDb (ruleTable [oneRule]) none "R1".toList
        "U".toList = some oneBinding ∧
      runbookLookup emptyObject digestOf none .rulesDb (ruleTable []) none oneRunbook
        preRegistryPack "R1".toList "u".toList =
          .passes (promoted preRegistryPack oneBinding) ∧
      ¬ SameRows (lookupRuleFor emptyObject (ruleTable []) none "R1".toList "U".toList)
        (lookupRuleFor emptyObject (ruleTable [oneRule]) none "R1".toList "U".toList) := by
  refine ⟨by decide, by decide, ?_⟩
  unfold SameRows
  have hbefore : lookupRuleFor emptyObject (ruleTable [oneRule]) none "R1".toList "U".toList =
      some [oneRule] := by decide
  have hnow : lookupRuleFor emptyObject (ruleTable []) none "R1".toList "U".toList = none := by
    decide
  rw [hbefore, hnow]
  exact nofun

end Runbooks

end ResidentCrm
