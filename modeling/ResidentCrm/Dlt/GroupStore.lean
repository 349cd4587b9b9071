import ResidentCrm.Lib.CreateOnly
import ResidentCrm.Lib.Text
import Mathlib.Data.List.Sort

/-!
# The group store

`dlt/group_store.py`, for one fingerprint: the objects under its prefix, and the group record that
`load_group` composes from what it reads of them. Occurrences and verdicts of the code check are
objects created once under a name of their own, and `group.json` is the frozen record of the store
before this one.
-/

namespace ResidentCrm.Dlt.GroupStore

universe u v w

/-- A dictionary from verdicts to counts. -/
abbrev Histogram := Text → Option ℤ

def Histogram.bump (h : Histogram) (verdict : Text) : Histogram := fun v =>
  if v = verdict then some ((h verdict).getD 0 + 1) else h v

/-- The verdicts tallied on top of a histogram. -/
def Histogram.tally (h : Histogram) (verdicts : List Text) : Histogram := verdicts.foldl bump h

/-- A histogram with `n v` more contributions to each verdict `v`. -/
def Histogram.plus (h : Histogram) (n : Text → ℕ) : Histogram := fun v =>
  if n v = 0 then h v else some ((h v).getD 0 + n v)

theorem Histogram.tally_eq_plus (h : Histogram) (verdicts : List Text) :
    h.tally verdicts = h.plus (verdicts.count ·) := by
  induction verdicts generalizing h with
  | nil => rfl
  | cons verdict verdicts ih =>
    change (h.bump verdict).tally verdicts = _
    rw [ih]
    funext v
    by_cases hv : v = verdict
    · subst hv
      have hbump : h.bump v v = some ((h v).getD 0 + 1) := if_pos rfl
      simp only [plus, hbump, List.count_cons_self, Nat.add_one_ne_zero, if_false,
        Option.getD_some]
      split <;> exact congrArg some (by omega)
    · have hbump : h.bump verdict v = h v := if_neg hv
      simp only [plus, hbump, List.count_cons_of_ne (Ne.symm hv)]

theorem Histogram.getD_plus (h : Histogram) (n : Text → ℕ) (v : Text) :
    (h.plus n v).getD 0 = (h v).getD 0 + n v := by
  unfold plus
  split
  · next hzero => simp [hzero]
  · rfl

/-! ## The objects -/

/-- `occurrences/<case_id>.json`. -/
structure Occurrence (T : Type u) where
  caseId : Text
  refId : Option Text := none
  corroboration : Option Text := none
  time : T
  seq : ℕ := 0
deriving DecidableEq

/-- `code_checks/<key>.json`. -/
structure CheckEntry where
  verdict : Text
  byCaseId : Option Text := none
deriving DecidableEq

/-- `meta.json`. -/
structure MetaDoc (T : Type u) where
  signature : Text := []
  failureClass : Text := ['U']
  businessCode : Option Text := none
  firstSeen : Option T
deriving DecidableEq

/-- `recommendation.json`. -/
structure RecommendationDoc (F : Type v) where
  recommendation : Option F
  state : Text
  byCaseId : Option Text := none
  corroboration : Option Text := none
deriving DecidableEq

/-- What a code check hands to the store. -/
structure CheckRecord (K : Type w) where
  verdict : Option Text
  rest : K
deriving DecidableEq

/-- `group.json`, as the composition reads it: an entry of the members that is no text is `none`,
and so is a count that is no number. -/
structure Legacy (T : Type u) (F : Type v) (K : Type w) where
  signature : Option Text := none
  failureClass : Option Text := none
  businessCode : Option Text := none
  firstSeen : Option T := none
  lastSeen : Option T := none
  occurrenceCount : Option ℤ := none
  members : List (Option Text) := []
  recommendation : Option F := none
  recommendationState : Option Text := none
  corroborationHistory : Histogram := fun _ => none
  codeCheck : Option (CheckRecord K) := none
  codeCheckHistory : Histogram := fun _ => none

/-- The objects of one fingerprint: those stored, or those of them that a load has read. -/
structure Files (T : Type u) (F : Type v) (K : Type w) where
  occurrences : List (Occurrence T) := []
  checks : List CheckEntry := []
  metaDoc : Option (MetaDoc T) := none
  recommendation : Option (RecommendationDoc F) := none
  codeCheck : Option (CheckRecord K) := none
  legacy : Option (Legacy T F K) := none

/-- The record of a group. -/
structure GroupRecord (T : Type u) (F : Type v) (K : Type w) where
  fingerprint : Text
  signature : Text
  failureClass : Text
  businessCode : Option Text
  firstSeen : Option T
  lastSeen : Option T
  occurrenceCount : ℤ
  members : List Text
  recommendation : Option F
  recommendationState : Text
  recommendationByCaseId : Option Text
  recommendationCorroboration : Option Text
  corroborationHistory : Histogram
  codeCheck : Option (CheckRecord K)
  codeCheckHistory : Histogram

variable {T : Type u} {F : Type v} {K : Type w}

/-- `a or b` of two texts. -/
def orText : Option Text → Option Text → Option Text
  | some (c :: cs), _ => some (c :: cs)
  | _, b => b

/-- The name an occurrence is created under. -/
def Occurrence.key (o : Occurrence T) : Option Text := some o.caseId

def Occurrence.verdict (o : Occurrence T) : Option Text := o.corroboration.filter (· ≠ [])

/-- The case a verdict of the code check is created under; without one its name is a fresh one. -/
def CheckEntry.key (e : CheckEntry) : Option Text := e.byCaseId.filter (· ≠ [])

/-! ## The composition -/

/-- `legacy_members`. -/
def Legacy.memberIds (l : Legacy T F K) : List Text := (l.members.filterMap id).filter (· ≠ [])

/-- `_int`. -/
def Legacy.count (l : Legacy T F K) : ℤ := max 0 (l.occurrenceCount.getD 0)

namespace Files

variable (p : Files T F K)

def memberIds : List Text := p.legacy.elim [] Legacy.memberIds

/-- The frozen record lists the case, under its case id or its refId. -/
def Lists (o : Occurrence T) : Prop :=
  o.caseId ∈ p.memberIds ∨ ∃ r ∈ o.refId, r ∈ p.memberIds

instance (o : Occurrence T) : Decidable (p.Lists o) := by unfold Lists; infer_instance

/-- The occurrences the frozen record does not list. -/
def fresh : List (Occurrence T) := p.occurrences.filter (¬ p.Lists ·)

def Blank : Prop :=
  p.occurrences = [] ∧ p.checks = [] ∧ p.metaDoc.isNone ∧ p.recommendation.isNone ∧
    p.codeCheck.isNone ∧ p.legacy.isNone

instance : Decidable p.Blank :=
  decidable_of_iff (p.occurrences.isEmpty ∧ p.checks.isEmpty ∧ p.metaDoc.isNone ∧
    p.recommendation.isNone ∧ p.codeCheck.isNone ∧ p.legacy.isNone)
    (by simp only [Blank, List.isEmpty_iff])

def occurrenceCount : ℤ := p.legacy.elim 0 Legacy.count + p.fresh.length

def corroborationHistory : Histogram :=
  Histogram.tally (p.legacy.elim (fun _ => none) Legacy.corroborationHistory)
    (p.fresh.filterMap Occurrence.verdict)

def codeCheckHistory : Histogram :=
  Histogram.tally (p.legacy.elim (fun _ => none) Legacy.codeCheckHistory)
    ((p.checks.map CheckEntry.verdict).filter (· ≠ []))

variable [LinearOrder T]

def starts : List T :=
  (p.metaDoc.bind MetaDoc.firstSeen).toList ++ (p.legacy.bind Legacy.firstSeen).toList ++
    p.fresh.map Occurrence.time

def ends : List T := (p.legacy.bind Legacy.lastSeen).toList ++ p.fresh.map Occurrence.time

def firstSeen : Option T := p.starts.min?

def lastSeen : Option T := p.ends.max?.or p.firstSeen

/-- `_order_key`, over the listing sorted by name. -/
def arrived : List (Occurrence T) :=
  (p.fresh.insertionSort fun o o' => ¬ o'.caseId ++ ".json".toList < o.caseId ++ ".json".toList
    ).insertionSort fun o o' => o.time < o'.time ∨ o.time = o'.time ∧ o.seq ≤ o'.seq

/-- The newest `cap` members, in the order of arrival. -/
def members (cap : ℕ) : List Text :=
  let all := p.memberIds ++ p.arrived.map Occurrence.caseId
  all.drop (all.length - cap)

/-- The recommendation on file, or the frozen record's. -/
def served : Option (RecommendationDoc F) :=
  p.recommendation.or <| p.legacy.bind fun l => l.recommendation.map fun f =>
    { recommendation := some f, state := l.recommendationState.getD "none".toList }

/-- `load_group`, of what its reads returned. -/
def compose (cap : ℕ) (fingerprint : Text) : Option (GroupRecord T F K) :=
  if p.Blank then none
  else some {
    fingerprint
    signature := (orText (p.metaDoc.map (·.signature)) (p.legacy.bind (·.signature))).getD []
    failureClass := ((orText (p.metaDoc.map (·.failureClass))
      (p.legacy.bind (·.failureClass))).filter (· ≠ [])).getD ['U']
    businessCode := orText (p.metaDoc.bind (·.businessCode)) (p.legacy.bind (·.businessCode))
    firstSeen := p.firstSeen
    lastSeen := p.lastSeen
    occurrenceCount := p.occurrenceCount
    members := p.members cap
    recommendation := p.served.bind (·.recommendation)
    recommendationState := p.served.elim "none".toList (·.state)
    recommendationByCaseId := p.served.bind (·.byCaseId)
    recommendationCorroboration := p.served.bind (·.corroboration)
    corroborationHistory := p.corroborationHistory
    codeCheck := p.codeCheck.or (p.legacy.bind (·.codeCheck))
    codeCheckHistory := p.codeCheckHistory }

end Files

/-! ## What a composition counts -/

section

variable {p : Files T F K} [LinearOrder T] {cap : ℕ} {fingerprint : Text} {g : GroupRecord T F K}

theorem Files.compose_isSome (h : ¬ p.Blank) : (p.compose cap fingerprint).isSome := by
  unfold Files.compose
  rw [if_neg h]
  rfl

theorem Files.of_compose (h : p.compose cap fingerprint = some g) :
    g.occurrenceCount = p.occurrenceCount ∧ g.corroborationHistory = p.corroborationHistory ∧
      g.codeCheckHistory = p.codeCheckHistory ∧ g.firstSeen = p.firstSeen ∧
      g.lastSeen = p.lastSeen ∧ g.recommendation = p.served.bind (·.recommendation) := by
  unfold Files.compose at h
  split at h
  · cases h
  · obtain rfl := Option.some.inj h
    exact ⟨rfl, rfl, rfl, rfl, rfl, rfl⟩

omit [LinearOrder T]

theorem Files.not_blank_of_legacy (h : p.legacy.isSome) : ¬ p.Blank := by
  rintro ⟨-, -, -, -, -, hnone⟩
  rw [Option.isNone_iff_eq_none.1 hnone] at h
  cases h

theorem Files.lists_congr {q : Files T F K} (h : p.legacy = q.legacy) (o : Occurrence T) :
    p.Lists o ↔ q.Lists o := by
  unfold Files.Lists Files.memberIds
  rw [h]

theorem Files.length_fresh (p : Files T F K) :
    p.fresh.length = p.occurrences.countP (¬ p.Lists ·) := by
  rw [Files.fresh, List.countP_eq_length_filter]

theorem Files.count_fresh (p : Files T F K) (v : Text) :
    (p.fresh.filterMap Occurrence.verdict).count v =
      p.occurrences.countP fun o => ¬ p.Lists o ∧ o.verdict = some v := by
  unfold Files.fresh
  induction p.occurrences with
  | nil => rfl
  | cons o os ih =>
    rw [List.countP_cons, ← ih]
    by_cases hlists : p.Lists o
    · simp [hlists]
    · cases hv : o.verdict with
      | none => simp [hlists, hv]
      | some v' => simp [hlists, hv, List.count_cons]

end

end ResidentCrm.Dlt.GroupStore
