import ResidentCrm.Dlt.GroupCalls
import ResidentCrm.Storage.Casebook

/-!
# Re-analysis across the cutover

The part of `_analyze` that writes to the group, for one record analysed any number of times, with
`storage_key` of `dlt/identity.py`. The members of the frozen record are refIds, and the occurrence
is recorded with the storage key in the place of the refId; so an analysis leaves the counts alone
exactly where the occurrence and the verdict are in the store already, or are listed in another way
(`unchanged_iff_meets`).
-/

namespace ResidentCrm.Dlt.GroupStore

open CreateOnly Storage

universe u v w

/-! ## The storage key -/

def idCharacter (c : Char) : Bool := c.isAlphanum || c ∈ ['_', '.', ':', '-']

/-- `is_valid_case_id`; `$` matches before a last line feed too. -/
def isValidCaseId (id : Text) : Bool :=
  let body := if id.getLast? = some '\n' then id.dropLast else id
  1 ≤ body.length && body.length ≤ 128 && body.all idCharacter

/-- `storage_key`, with the digest of the case id. -/
def storageKey (digest : Text → Text) (refId : Option Text) (caseId : Text) : Text :=
  match refId.filter (· ≠ []) with
  | none => caseId
  | some r =>
    let key := r ++ "__".toList ++ digest caseId
    if key.length ≤ 128 && isValidCaseId key then key else caseId

/-! ## One analysis -/

/-- What the routes know of a record. -/
structure DltRecord where
  caseId : Text
  refId : Option Text
deriving DecidableEq, Repr

/-- `message.ref_id or case_id`. -/
def DltRecord.delivery (d : DltRecord) : Text := (d.refId.filter (· ≠ [])).getD d.caseId

/-- What one analysis finds outside the group store, and which of its writes there are made. -/
structure Analysis (T : Type u) (K : Type w) where
  holder : Option Text := none
  serviceSkips : Bool := false
  signature : Text := []
  failureClass : Text := ['A']
  businessCode : Option Text := none
  corroboration : Text
  time : T
  seq : ℕ := 0
  createsOccurrence : Bool := true
  savesMeta : Bool := true
  check : CheckRecord K
  savesCheck : Bool := true
  createsCheck : Bool := true
  /-- What is recorded for the case when it ends. -/
  status : Option Status := none

/-- The group's files, and the status recorded under the storage key. -/
structure Reanalysed (T : Type u) (F : Type v) (K : Type w) where
  files : Files T F K
  status : Option Status := none

variable {T : Type u} {F : Type v} {K : Type w}

/-- The analysis returns before it reaches the group. -/
def Analysis.Skipped (d : DltRecord) (s : Reanalysed T F K) (a : Analysis T K) : Prop :=
  (∃ v ∈ s.status, v.Terminal) ∨ (∃ h ∈ a.holder, h ≠ [] ∧ h ≠ d.delivery) ∨
    a.serviceSkips = true

instance (d : DltRecord) (s : Reanalysed T F K) (a : Analysis T K) : Decidable (a.Skipped d s) := by
  unfold Analysis.Skipped
  infer_instance

def Analysis.recordCall (digest : Text → Text) (d : DltRecord) (a : Analysis T K) :
    RecordCall T where
  record :=
    { caseId := d.caseId
      refId := some (storageKey digest d.refId d.caseId)
      corroboration := some a.corroboration
      time := a.time
      seq := a.seq }
  signature := a.signature
  failureClass := a.failureClass
  businessCode := a.businessCode

def unknownVerdict : Text := "UNKNOWN".toList

/-- The verdict is attached unless it is `UNKNOWN`. -/
def Analysis.checkCall (d : DltRecord) (a : Analysis T K) : Option (CheckCall K) :=
  if a.check.verdict = some unknownVerdict then none else some ⟨a.check, some d.caseId⟩

section

variable [Zero T] [DecidableEq T]

/-- `record_occurrence`, as far as its writes are made. -/
def Files.recordOccurrence (p : Files T F K) (creates saves : Bool) (c : RecordCall T) :
    Files T F K :=
  if creates then
    let created := ((Stage.create c).run p).1
    if saves then ((Stage.saveMeta c created.metaDoc).run created).1 else created
  else p

/-- `attach_code_check`, as far as its writes are made. -/
def Files.attachCodeCheck (p : Files T F K) (saves creates : Bool) (c : CheckCall K) :
    Files T F K :=
  if saves then
    let saved := ((Stage.saveCheck c).run p).1
    match c.entry with
    | some entry => if creates then ((Stage.createCheck c entry).run saved).1 else saved
    | none => saved
  else p

def Analysis.run (digest : Text → Text) (d : DltRecord) (s : Reanalysed T F K) (a : Analysis T K) :
    Reanalysed T F K :=
  if a.Skipped d s then s
  else
    let recorded := s.files.recordOccurrence a.createsOccurrence a.savesMeta (a.recordCall digest d)
    { files := (a.checkCall d).elim recorded (recorded.attachCodeCheck a.savesCheck a.createsCheck)
      status := a.status.or s.status }

/-- The analyses of one record, whose refId the frozen record lists. -/
def reanalysis (T : Type u) (F : Type v) (K : Type w) [Zero T] [DecidableEq T]
    (digest : Text → Text) (d : DltRecord) : Machine (Reanalysed T F K) (Analysis T K) where
  start s := ∃ r ∈ d.refId, r ∈ s.files.memberIds
  step s a := some (a.run digest d s)

end

/-! ## What leaves the counts alone -/

/-- The case is in the store, or the frozen record lists its case id or its storage key. -/
def Files.KnowsCase (p : Files T F K) (digest : Text → Text) (d : DltRecord) : Prop :=
  d.caseId ∈ keys Occurrence.key p.occurrences ∨ d.caseId ∈ p.memberIds ∨
    storageKey digest d.refId d.caseId ∈ p.memberIds

/-- The verdict leaves no entry in the history, or the case has one there already. -/
def Analysis.AddsNoVerdict (d : DltRecord) (p : Files T F K) (a : Analysis T K) : Prop :=
  a.check.verdict = some unknownVerdict ∨ a.check.verdict.filter (· ≠ []) = none ∨
    d.caseId ∈ keys CheckEntry.key p.checks

/-- The analysis is skipped, or what it writes is known. -/
def Analysis.Known (digest : Text → Text) (d : DltRecord) (s : Reanalysed T F K)
    (a : Analysis T K) : Prop :=
  a.Skipped d s ∨ (s.files.KnowsCase digest d ∨ a.createsOccurrence = false) ∧
    (a.AddsNoVerdict d s.files ∨ a.savesCheck = false ∨ a.createsCheck = false)

/-- What the counts are made of: the occurrences that are counted, and the verdicts. -/
structure Extends (p q : Files T F K) : Prop where
  legacy : q.legacy = p.legacy
  fresh : p.fresh <+: q.fresh
  checks : ∃ new, q.checks = p.checks ++ new ∧ ∀ e ∈ new, e.verdict ≠ []

/-- The same occurrences are counted, and the same verdicts. -/
structure CountsSame (p q : Files T F K) : Prop where
  fresh : q.fresh = p.fresh
  checks : q.checks = p.checks

theorem Extends.of_checks_eq {p q : Files T F K} (hlegacy : q.legacy = p.legacy)
    (hfresh : p.fresh <+: q.fresh) (hchecks : q.checks = p.checks) : Extends p q :=
  ⟨hlegacy, hfresh, [], by rw [hchecks, List.append_nil], nofun⟩

theorem Extends.refl (p : Files T F K) : Extends p p := .of_checks_eq rfl List.prefix_rfl rfl

theorem Extends.trans {p q r : Files T F K} (h : Extends p q) (h' : Extends q r) :
    Extends p r where
  legacy := h'.legacy.trans h.legacy
  fresh := h.fresh.trans h'.fresh
  checks := by
    obtain ⟨new, hnew, hne⟩ := h.checks
    obtain ⟨new', hnew', hne'⟩ := h'.checks
    refine ⟨new ++ new', by rw [hnew', hnew, List.append_assoc], fun e he => ?_⟩
    rcases List.mem_append.1 he with he | he
    · exact hne e he
    · exact hne' e he

section

variable [Zero T] [DecidableEq T] {digest : Text → Text} {d : DltRecord} {p q : Files T F K}
  {s t s₀ : Reanalysed T F K} {a : Analysis T K}

omit [Zero T] [DecidableEq T] in
theorem fresh_insertNew (o : Occurrence T) :
    ∃ x, ({ p with occurrences := insertNew Occurrence.key p.occurrences o }).fresh = p.fresh ++ x ∧
      (x = [] ↔ o.caseId ∈ keys Occurrence.key p.occurrences ∨ p.Lists o) := by
  rcases insertNew_cases Occurrence.key p.occurrences o with ⟨k, hk, hkey, heq⟩ | ⟨hnew, heq⟩
  · obtain rfl : o.caseId = k := Option.some.inj hkey
    refine ⟨[], ?_, by simp [hk]⟩
    rw [heq, List.append_nil]
  · refine ⟨[o].filter (¬ p.Lists ·), ?_, ?_⟩
    · rw [heq]
      exact List.filter_append ..
    · have hfresh : o.caseId ∉ keys Occurrence.key p.occurrences := hnew _ rfl
      simp [hfresh]

theorem recordOccurrence_spec (creates saves : Bool) (c : RecordCall T) :
    Extends p (p.recordOccurrence creates saves c) ∧
      (p.recordOccurrence creates saves c).checks = p.checks ∧
      ((p.recordOccurrence creates saves c).fresh = p.fresh ↔ creates = false ∨
        c.record.caseId ∈ keys Occurrence.key p.occurrences ∨ p.Lists c.record) := by
  unfold Files.recordOccurrence
  cases creates with
  | false => exact ⟨Extends.refl p, rfl, by simp⟩
  | true =>
    obtain ⟨x, hx, hnil⟩ := fresh_insertNew (p := p) c.record
    have hsaved : ∀ q : Files T F K, q.legacy = p.legacy → q.checks = p.checks →
        q.occurrences = insertNew Occurrence.key p.occurrences c.record →
        Extends p q ∧ q.checks = p.checks ∧ (q.fresh = p.fresh ↔ true = false ∨
          c.record.caseId ∈ keys Occurrence.key p.occurrences ∨ p.Lists c.record) := by
      intro q hlegacy hchecks hocc
      have hfresh : q.fresh = p.fresh ++ x := by
        rw [← hx]
        simp only [Files.fresh, hocc, Files.lists_congr (p := q) (q := p) hlegacy]
        rfl
      refine ⟨.of_checks_eq hlegacy ⟨x, hfresh.symm⟩ hchecks, hchecks, ?_⟩
      rw [hfresh, List.append_right_eq_self, hnil]
      simp
    cases saves <;> exact hsaved _ rfl rfl rfl

theorem attachCodeCheck_spec (saves creates : Bool) (c : CheckCall K) :
    Extends p (p.attachCodeCheck saves creates c) ∧
      (p.attachCodeCheck saves creates c).fresh = p.fresh ∧
      ((p.attachCodeCheck saves creates c).checks = p.checks ↔ c.entry = none ∨ saves = false ∨
        creates = false ∨ ∃ k ∈ c.byCaseId.filter (· ≠ []), k ∈ keys CheckEntry.key p.checks) := by
  unfold Files.attachCodeCheck
  cases saves with
  | false => exact ⟨Extends.refl p, rfl, by simp⟩
  | true =>
    cases hentry : c.entry with
    | none =>
      refine ⟨.of_checks_eq rfl List.prefix_rfl rfl, rfl, ?_⟩
      simp [Stage.run]
    | some entry =>
      cases creates with
      | false =>
        refine ⟨.of_checks_eq rfl List.prefix_rfl rfl, rfl, ?_⟩
        simp [Stage.run]
      | true =>
        obtain ⟨verdict, hverdict, rfl⟩ := Option.map_eq_some_iff.1 hentry
        have hne : verdict ≠ [] := by simpa using (Option.filter_eq_some_iff.1 hverdict).2
        simp only [Stage.run, if_true, reduceCtorEq, false_or]
        rcases insertNew_cases CheckEntry.key p.checks ⟨verdict, c.byCaseId⟩ with
          ⟨k, hk, hkey, heq⟩ | ⟨hnew, heq⟩ <;> rw [heq]
        · refine ⟨.of_checks_eq rfl List.prefix_rfl rfl, rfl, ?_⟩
          exact iff_of_true rfl ⟨k, hkey, hk⟩
        · refine ⟨⟨rfl, List.prefix_rfl, [⟨verdict, c.byCaseId⟩], rfl, by simpa using hne⟩, rfl, ?_⟩
          simp only [List.append_right_eq_self, List.cons_ne_nil, false_iff, not_exists,
            not_and]
          exact hnew

theorem ne_nil_of_mem_keys {k : Text} {l : List CheckEntry} (h : k ∈ keys CheckEntry.key l) :
    k ≠ [] := by
  obtain ⟨e, -, hkey⟩ := mem_keys.1 h
  simpa using (Option.filter_eq_some_iff.1 hkey).2

/-- One analysis that reaches the group. -/
theorem run_spec (h : ¬ a.Skipped d s) : Extends s.files (a.run digest d s).files ∧
    (CountsSame s.files (a.run digest d s).files ↔
      (s.files.KnowsCase digest d ∨ a.createsOccurrence = false) ∧
        (a.AddsNoVerdict d s.files ∨ a.savesCheck = false ∨ a.createsCheck = false)) := by
  obtain ⟨hrecords, hchecks, hfresh⟩ := recordOccurrence_spec (p := s.files)
    a.createsOccurrence a.savesMeta (a.recordCall digest d)
  have hknows : s.files.Lists (a.recordCall digest d).record ↔ d.caseId ∈ s.files.memberIds ∨
      storageKey digest d.refId d.caseId ∈ s.files.memberIds := by
    simp [Files.Lists, Analysis.recordCall]
  have hfresh' : (s.files.recordOccurrence a.createsOccurrence a.savesMeta
      (a.recordCall digest d)).fresh = s.files.fresh ↔
        s.files.KnowsCase digest d ∨ a.createsOccurrence = false := by
    rw [hfresh, hknows, or_comm]
    rfl
  simp only [Analysis.run, if_neg h]
  by_cases hverdict : a.check.verdict = some unknownVerdict
  · simp only [Analysis.checkCall, if_pos hverdict, Option.elim_none]
    refine ⟨hrecords, fun hsame => ⟨hfresh'.1 hsame.fresh, .inl (.inl hverdict)⟩, fun hknown => ?_⟩
    exact ⟨hfresh'.2 hknown.1, hchecks⟩
  · simp only [Analysis.checkCall, if_neg hverdict, Option.elim_some]
    obtain ⟨hattaches, hfresh₂, hchecks₂⟩ := attachCodeCheck_spec (p := s.files.recordOccurrence
      a.createsOccurrence a.savesMeta (a.recordCall digest d)) a.savesCheck a.createsCheck
      ⟨a.check, some d.caseId⟩
    have hentry : (⟨a.check, some d.caseId⟩ : CheckCall K).entry = none ↔
        a.check.verdict.filter (· ≠ []) = none := by simp [CheckCall.entry]
    have hkept : (∃ k ∈ (some d.caseId).filter (· ≠ []), k ∈ keys CheckEntry.key s.files.checks) ↔
        d.caseId ∈ keys CheckEntry.key s.files.checks := by
      constructor
      · rintro ⟨k, hk, hmem⟩
        obtain ⟨heq, -⟩ := Option.filter_eq_some_iff.1 hk
        rwa [Option.some.inj heq]
      · intro hmem
        exact ⟨d.caseId, by simp [ne_nil_of_mem_keys hmem], hmem⟩
    rw [hchecks, hentry, hkept] at hchecks₂
    refine ⟨hrecords.trans hattaches, ?_⟩
    have hadds : a.AddsNoVerdict d s.files ↔ a.check.verdict.filter (· ≠ []) = none ∨
        d.caseId ∈ keys CheckEntry.key s.files.checks := or_iff_right hverdict
    constructor
    · intro hsame
      refine ⟨hfresh'.1 (hfresh₂.symm.trans hsame.fresh), ?_⟩
      rw [hadds]
      rcases hchecks₂.1 hsame.checks with hnone | hsaves | hcreates | hkept
      · exact .inl (.inl hnone)
      · exact .inr (.inl hsaves)
      · exact .inr (.inr hcreates)
      · exact .inl (.inr hkept)
    · rintro ⟨hknown, hadd⟩
      refine ⟨hfresh₂.trans (hfresh'.2 hknown), hchecks₂.2 ?_⟩
      rw [hadds] at hadd
      rcases hadd with (hnone | hkept) | hsaves | hcreates
      · exact .inl hnone
      · exact .inr (.inr (.inr hkept))
      · exact .inr (.inl hsaves)
      · exact .inr (.inr (.inl hcreates))

end

/-! ## Runs -/

section

variable {p q : Files T F K}

theorem CountsSame.of_extends {r : Files T F K} (h : Extends p q) (h' : Extends q r)
    (hsame : CountsSame p r) : CountsSame p q ∧ CountsSame q r := by
  obtain ⟨new, hnew, -⟩ := h.checks
  obtain ⟨new', hnew', -⟩ := h'.checks
  have hfresh : q.fresh = p.fresh := by
    refine (h.fresh.eq_of_length_le ?_).symm
    rw [← hsame.fresh]
    exact h'.fresh.length_le
  have hnil : new ++ new' = [] := by
    have hchecks := hsame.checks
    rwa [hnew', hnew, List.append_assoc, List.append_right_eq_self] at hchecks
  obtain ⟨rfl, rfl⟩ := List.append_eq_nil_iff.1 hnil
  rw [List.append_nil] at hnew hnew'
  exact ⟨⟨hfresh, hnew⟩, hsame.fresh.trans hfresh.symm, hnew'⟩

/-- The counts and the histograms are reported as before exactly where they count the same. -/
theorem counts_eq_iff (h : Extends p q) : (q.occurrenceCount = p.occurrenceCount ∧
    q.corroborationHistory = p.corroborationHistory ∧ q.codeCheckHistory = p.codeCheckHistory) ↔
      CountsSame p q := by
  constructor
  · rintro ⟨hcount, -, hhistory⟩
    have hlength : q.fresh.length = p.fresh.length := by
      unfold Files.occurrenceCount at hcount
      rw [h.legacy] at hcount
      omega
    refine ⟨(h.fresh.eq_of_length hlength.symm).symm, ?_⟩
    obtain ⟨new, hnew, hne⟩ := h.checks
    cases new with
    | nil => rw [hnew, List.append_nil]
    | cons e new =>
      -- the verdict of the first new entry is counted once more
      have hverdict : e.verdict ≠ [] := hne e List.mem_cons_self
      unfold Files.codeCheckHistory at hhistory
      rw [h.legacy, Histogram.tally_eq_plus, Histogram.tally_eq_plus] at hhistory
      have hvalue := congrArg (·.getD 0) (congrFun hhistory e.verdict)
      simp only [Histogram.getD_plus, hnew, List.map_append, List.map_cons, List.filter_append,
        List.count_append] at hvalue
      rw [List.filter_cons_of_pos (by simpa using hverdict), List.count_cons_self] at hvalue
      omega
  · intro hsame
    simp only [Files.occurrenceCount, Files.corroborationHistory, Files.codeCheckHistory, h.legacy,
      hsame.fresh, hsame.checks, and_self]

end

section

variable [DecidableEq T] [Zero T] {digest : Text → Text} {d : DltRecord}
  {s t s₀ : Reanalysed T F K} {a : Analysis T K}

theorem run_of_skipped (h : a.Skipped d s) : a.run digest d s = s := if_pos h

theorem extends_run (digest : Text → Text) (d : DltRecord) (s : Reanalysed T F K)
    (a : Analysis T K) : Extends s.files (a.run digest d s).files := by
  by_cases hskip : a.Skipped d s
  · rw [run_of_skipped hskip]
    exact Extends.refl _
  · exact (run_spec hskip).1

theorem countsSame_run_iff (h : Extends s₀.files s.files) :
    CountsSame s₀.files (a.run digest d s).files ↔
      CountsSame s₀.files s.files ∧ a.Known digest d s := by
  by_cases hskip : a.Skipped d s
  · rw [run_of_skipped hskip]
    exact (and_iff_left (.inl hskip)).symm
  have hknown : a.Known digest d s ↔ CountsSame s.files (a.run digest d s).files := by
    rw [(run_spec hskip).2]
    exact or_iff_right hskip
  rw [hknown]
  constructor
  · exact CountsSame.of_extends h (extends_run digest d s a)
  · rintro ⟨hs, ht⟩
    exact ⟨ht.fresh.trans hs.fresh, ht.checks.trans hs.checks⟩

end

variable [LinearOrder T] [Zero T] {digest : Text → Text} {d : DltRecord} {s t : Reanalysed T F K}

/-- **Analysing a listed record again leaves the counts alone exactly where what it writes is
known**: its occurrence by the case id or the storage key, never by the refId the frozen record
lists. -/
theorem unchanged_iff_meets (hs : (reanalysis T F K digest d).start s) {as : List (Analysis T K)}
    (h : (reanalysis T F K digest d).run s as = some t) (cap : ℕ) (fingerprint : Text) :
    ∃ g ∈ s.files.compose cap fingerprint, ∃ g' ∈ t.files.compose cap fingerprint,
      ((g'.occurrenceCount = g.occurrenceCount ∧
        g'.corroborationHistory = g.corroborationHistory ∧
        g'.codeCheckHistory = g.codeCheckHistory) ↔
          (reanalysis T F K digest d).Meets (fun s a => a.Known digest d s) s as) := by
  have hextends : ∀ u, (reanalysis T F K digest d).Later Machine.anyStep s u →
      Extends s.files u.files := by
    intro u hu
    refine hu.relate (R := fun s u : Reanalysed T F K => Extends s.files u.files)
      (Extends.refl _) ?_
    intro u a v _ hsu _ hv
    obtain rfl := Option.some.inj hv
    exact hsu.trans (extends_run digest d u a)
  have hst := hextends t (.of_run .refl h)
  have hlegacy : s.files.legacy.isSome := by
    obtain ⟨r, -, hr⟩ := hs
    unfold Files.memberIds at hr
    cases hl : s.files.legacy with
    | none =>
      rw [hl] at hr
      cases hr
    | some l => rfl
  have hlegacy' : t.files.legacy.isSome := by rwa [hst.legacy]
  have hreported : (s.files.compose cap fingerprint).isSome :=
    Files.compose_isSome (Files.not_blank_of_legacy hlegacy)
  have hreported' : (t.files.compose cap fingerprint).isSome :=
    Files.compose_isSome (Files.not_blank_of_legacy hlegacy')
  obtain ⟨g, hg⟩ := Option.isSome_iff_exists.1 hreported
  obtain ⟨g', hg'⟩ := Option.isSome_iff_exists.1 hreported'
  obtain ⟨hcount, hcorroboration, hchecks, -⟩ := Files.of_compose hg
  obtain ⟨hcount', hcorroboration', hchecks', -⟩ := Files.of_compose hg'
  refine ⟨g, hg, g', hg', ?_⟩
  rw [hcount, hcount', hcorroboration, hcorroboration', hchecks, hchecks', counts_eq_iff hst]
  have hself : CountsSame s.files s.files := ⟨rfl, rfl⟩
  rw [Machine.keeps_iff_meets (M := reanalysis T F K digest d)
    (C := fun s a => a.Known digest d s)
    (I := fun u => Extends s.files u.files) (P := fun u => CountsSame s.files u.files)
    (fun u a v hu hv => ?_) (fun u a v hu hv => ?_) (Extends.refl _) h, and_iff_right hself]
  · obtain rfl := Option.some.inj hv
    exact hu.trans (extends_run digest d u a)
  · obtain rfl := Option.some.inj hv
    exact countsSame_run_iff hu

/-! ## A refId that the frozen record lists -/

/-- The first ten hexadecimal digits of the SHA-256 of `dlt-orders-0-7`. -/
def digestOf7 (_ : Text) : Text := "bc5481b978".toList

def orders7 : DltRecord := ⟨"dlt-orders-0-7".toList, some "REF-1".toList⟩

def frozen : Reanalysed ℕ Unit Unit where
  files := { legacy := some { occurrenceCount := some 1, members := [some "REF-1".toList] } }

def analysed (verdict : Text) : Analysis ℕ Unit where
  corroboration := "SUPPORTED".toList
  time := 5
  check := ⟨some verdict, ()⟩

theorem unchanged_iff_meets_orders7 : ∃ t, (reanalysis ℕ Unit Unit digestOf7 orders7).run frozen
    [analysed unknownVerdict, analysed unknownVerdict] = some t ∧
    ∃ g ∈ frozen.files.compose 200 "fp".toList, ∃ g' ∈ t.files.compose 200 "fp".toList,
      ((g'.occurrenceCount = g.occurrenceCount ∧
        g'.corroborationHistory = g.corroborationHistory ∧
        g'.codeCheckHistory = g.codeCheckHistory) ↔
          (reanalysis ℕ Unit Unit digestOf7 orders7).Meets
            (fun s a => a.Known digestOf7 orders7 s) frozen
            [analysed unknownVerdict, analysed unknownVerdict]) :=
  ⟨_, rfl, unchanged_iff_meets ⟨"REF-1".toList, rfl, by decide⟩ rfl 200 "fp".toList⟩

/-- One analysis, and the record that was counted is counted again. -/
theorem counted_again : (reanalysis ℕ Unit Unit digestOf7 orders7).start frozen ∧
    ∃ t ∈ (reanalysis ℕ Unit Unit digestOf7 orders7).run frozen [analysed unknownVerdict],
      (frozen.files.compose 200 "fp".toList).map (·.occurrenceCount) = some 1 ∧
      (t.files.compose 200 "fp".toList).map (·.occurrenceCount) = some 2 :=
  ⟨⟨"REF-1".toList, rfl, by decide⟩, _, rfl, by decide, by decide⟩

end ResidentCrm.Dlt.GroupStore
