import ResidentCrm.Dlt.GroupStore
import ResidentCrm.Lib.Machine
import Mathlib.Data.List.Perm.Basic

/-!
# Calls on the group store

`record_occurrence` and the attach operations of several processes, one operation on the storage at
a time: a call is what it has still to do, from its next operation on. As history a state keeps the
calls in the order in which they took effect on the objects that are counted.

What is counted is the first record offered under each name, whatever the order (`Sound`).
-/

namespace ResidentCrm.Dlt.GroupStore

open CreateOnly

universe u v w

variable {T : Type u} {F : Type v} {K : Type w}

structure RecordCall (T : Type u) where
  record : Occurrence T
  signature : Text := []
  failureClass : Text := ['U']
  businessCode : Option Text := none
deriving DecidableEq

structure CheckCall (K : Type w) where
  record : CheckRecord K
  byCaseId : Option Text := none
deriving DecidableEq

/-- The verdict a code check leaves in the history. -/
def CheckCall.entry (c : CheckCall K) : Option CheckEntry :=
  (c.record.verdict.filter (· ≠ [])).map (⟨·, c.byCaseId⟩)

inductive Call (T : Type u) (F : Type v) (K : Type w) where
  | record (c : RecordCall T)
  | recommend (doc : RecommendationDoc F)
  | check (c : CheckCall K)
deriving DecidableEq

/-- What a call has still to do. -/
inductive Stage (T : Type u) (F : Type v) (K : Type w) where
  | create (c : RecordCall T)
  | loadMeta (c : RecordCall T)
  | saveMeta (c : RecordCall T) (existing : Option (MetaDoc T))
  | saveRecommendation (doc : RecommendationDoc F)
  | saveCheck (c : CheckCall K)
  | createCheck (c : CheckCall K) (entry : CheckEntry)
deriving DecidableEq

def Call.first : Call T F K → Stage T F K
  | .record c => .create c
  | .recommend doc => .saveRecommendation doc
  | .check c => .saveCheck c

def Call.occurrence : Call T F K → Option (Occurrence T)
  | .record c => some c.record
  | _ => none

def Call.entry : Call T F K → Option CheckEntry
  | .check c => c.entry
  | _ => none

section

variable [Zero T] [DecidableEq T]

/-- `existing.get("first_seen") or record["at"]`. -/
def RecordCall.dated (c : RecordCall T) (existing : Option (MetaDoc T)) : T :=
  ((existing.bind MetaDoc.firstSeen).filter (· ≠ 0)).getD c.record.time

/-- What `record_occurrence` saves to `meta.json`. -/
def RecordCall.metaDoc (c : RecordCall T) (existing : Option (MetaDoc T)) : MetaDoc T where
  signature := (orText (some c.signature) (existing.map (·.signature))).getD []
  failureClass := ((orText (some c.failureClass) (existing.map (·.failureClass))).filter
    (· ≠ [])).getD ['U']
  businessCode := orText c.businessCode (existing.bind (·.businessCode))
  firstSeen := some (c.dated existing)

/-- One operation on the storage, and what the call has then still to do. -/
def Stage.run (p : Files T F K) : Stage T F K → Files T F K × Option (Stage T F K)
  | .create c =>
    ({ p with occurrences := insertNew Occurrence.key p.occurrences c.record }, some (.loadMeta c))
  | .loadMeta c => (p, some (.saveMeta c p.metaDoc))
  | .saveMeta c existing => ({ p with metaDoc := some (c.metaDoc existing) }, none)
  | .saveRecommendation doc => ({ p with recommendation := some doc }, none)
  | .saveCheck c => ({ p with codeCheck := some c.record }, c.entry.map (.createCheck c))
  | .createCheck _ entry => ({ p with checks := insertNew CheckEntry.key p.checks entry }, none)

/-- The call that takes effect with the operation. -/
def Stage.logs : Stage T F K → List (Call T F K)
  | .create c => [.record c]
  | .saveRecommendation doc => [.recommend doc]
  | .saveCheck c => if c.entry.isNone then [.check c] else []
  | .createCheck c _ => [.check c]
  | _ => []

/-! ## The machine -/

structure Group (T : Type u) (F : Type v) (K : Type w) where
  files : Files T F K
  running : List (Stage T F K) := []
  log : List (Call T F K) := []

inductive Act (T : Type u) (F : Type v) (K : Type w) where
  | call (c : Call T F K)
  | advance (i : ℕ)

/-- A call goes on, or it returns. -/
def resume {α : Type*} (running : List α) (i : ℕ) : Option α → List α
  | some next => running.set i next
  | none => running.eraseIdx i

/-- At the start the fingerprint has no object of this store that dates or counts anything. -/
def groupCalls (T : Type u) (F : Type v) (K : Type w) [Zero T] [DecidableEq T] :
    Machine (Group T F K) (Act T F K) where
  start s := s.files.occurrences = [] ∧ s.files.checks = [] ∧ s.files.metaDoc = none ∧
    s.running = [] ∧ s.log = []
  step s
    | .call c => some { s with running := s.running ++ [c.first] }
    | .advance i => s.running[i]?.map fun stage =>
      { files := (stage.run s.files).1
        running := resume s.running i (stage.run s.files).2
        log := s.log ++ stage.logs }

end

def Group.recorded (s : Group T F K) : List (Occurrence T) := s.log.filterMap Call.occurrence

def Group.checked (s : Group T F K) : List CheckEntry := s.log.filterMap Call.entry

/-! ## What a call has still to do -/

/-- The occurrence is recorded and `meta.json` still to be saved. -/
def Stage.dating : Stage T F K → Option (Occurrence T)
  | .loadMeta c | .saveMeta c _ => some c.record
  | _ => none

/-- The document is dated by one of the records. -/
def DatedBy (recorded : List (Occurrence T)) (doc : Option (MetaDoc T)) : Prop :=
  ∀ d ∈ doc, ∃ o ∈ recorded, d.firstSeen = some o.time

/-- What a call under way has read and done is of the store. -/
def Stage.Sound (recorded : List (Occurrence T)) : Stage T F K → Prop
  | .loadMeta c => c.record ∈ recorded
  | .saveMeta c existing => c.record ∈ recorded ∧ DatedBy recorded existing
  | .createCheck c entry => c.entry = some entry
  | _ => True

/-- What is counted and dated, in a run from `s₀`. -/
structure Sound (s₀ s : Group T F K) : Prop where
  legacy : s.files.legacy = s₀.files.legacy
  occurrences : s.files.occurrences = firsts Occurrence.key s.recorded
  checks : s.files.checks = firsts CheckEntry.key s.checked
  dated : DatedBy s.recorded s.files.metaDoc
  running : ∀ stage ∈ s.running, stage.Sound s.recorded
  saved : s.files.metaDoc.isSome ∨
    ∀ o ∈ s.recorded, ∃ stage ∈ s.running, stage.dating = some o

theorem DatedBy.mono {recorded recorded' : List (Occurrence T)} (h : recorded ⊆ recorded')
    {doc : Option (MetaDoc T)} (hd : DatedBy recorded doc) : DatedBy recorded' doc := by
  intro d hmem
  obtain ⟨o, ho, htime⟩ := hd d hmem
  exact ⟨o, h ho, htime⟩

theorem Stage.Sound.mono {recorded recorded' : List (Occurrence T)} (h : recorded ⊆ recorded')
    {stage : Stage T F K} (hs : stage.Sound recorded) : stage.Sound recorded' := by
  cases stage with
  | loadMeta c => exact h hs
  | saveMeta c existing => exact ⟨h hs.1, hs.2.mono h⟩
  | createCheck c entry => exact hs
  | create c => trivial
  | saveRecommendation doc => trivial
  | saveCheck c => trivial

section

variable [Zero T] [DecidableEq T] {s t s₀ : Group T F K} {a : Act T F K}
  {recorded : List (Occurrence T)}

/-! ## One step -/

omit [Zero T] [DecidableEq T] in
theorem resume_perm {α : Type*} {running : List α} {i : ℕ} (h : i < running.length)
    (next : Option α) :
    (resume running i next).Perm (next.toList ++ running.eraseIdx i) := by
  cases next with
  | none => exact List.Perm.refl _
  | some next => exact List.set_perm_cons_eraseIdx h next

/-- What a step does: a call starts, or the next operation of one takes place. -/
theorem step_cases (h : (groupCalls T F K).step s a = some t) :
    (∃ c, a = .call c ∧ t = { s with running := s.running ++ [c.first] }) ∨
      ∃ i stage rest, a = .advance i ∧ s.running.Perm (stage :: rest) ∧
        t.running.Perm ((stage.run s.files).2.toList ++ rest) ∧
        t.files = (stage.run s.files).1 ∧ t.log = s.log ++ stage.logs := by
  cases a with
  | call c => exact .inl ⟨c, rfl, (Option.some.inj h).symm⟩
  | advance i =>
    obtain ⟨stage, hstage, rfl⟩ := Option.map_eq_some_iff.1 h
    obtain ⟨hi, hget⟩ := List.getElem?_eq_some_iff.1 hstage
    refine .inr ⟨i, stage, s.running.eraseIdx i, rfl, ?_, resume_perm hi _, rfl, rfl⟩
    rw [← hget]
    exact (List.getElem_cons_eraseIdx_perm hi).symm

omit [Zero T] [DecidableEq T] in
theorem recorded_append (log log' : List (Call T F K)) : (log ++ log').filterMap Call.occurrence =
    log.filterMap Call.occurrence ++ log'.filterMap Call.occurrence := List.filterMap_append

theorem datedBy_metaDoc {c : RecordCall T} {existing : Option (MetaDoc T)}
    (hc : c.record ∈ recorded) (hd : DatedBy recorded existing) :
    DatedBy recorded (some (c.metaDoc existing)) := by
  rintro d ⟨⟩
  change ∃ o ∈ recorded, some (c.dated existing) = some o.time
  unfold RecordCall.dated
  cases hseen : (existing.bind MetaDoc.firstSeen).filter (· ≠ 0) with
  | none => exact ⟨c.record, hc, rfl⟩
  | some time =>
    obtain ⟨hbind, -⟩ := Option.filter_eq_some_iff.1 hseen
    obtain ⟨d, hdoc, htime⟩ := Option.bind_eq_some_iff.1 hbind
    obtain ⟨o, ho, hfirst⟩ := hd d hdoc
    exact ⟨o, ho, by rw [Option.getD_some, ← htime, hfirst]⟩

/-- The store after an operation, and what it has then still to do. -/
theorem Stage.run_spec {stage : Stage T F K} {p : Files T F K} {log : List (Call T F K)}
    (hocc : p.occurrences = firsts Occurrence.key (log.filterMap Call.occurrence))
    (hchecks : p.checks = firsts CheckEntry.key (log.filterMap Call.entry))
    (hmeta : DatedBy (log.filterMap Call.occurrence) p.metaDoc)
    (hs : stage.Sound (log.filterMap Call.occurrence)) :
    (stage.run p).1.legacy = p.legacy ∧
    (stage.run p).1.occurrences =
      firsts Occurrence.key ((log ++ stage.logs).filterMap Call.occurrence) ∧
    (stage.run p).1.checks = firsts CheckEntry.key ((log ++ stage.logs).filterMap Call.entry) ∧
    DatedBy ((log ++ stage.logs).filterMap Call.occurrence) (stage.run p).1.metaDoc ∧
    ∀ next ∈ (stage.run p).2, next.Sound ((log ++ stage.logs).filterMap Call.occurrence) := by
  have hmono : log.filterMap Call.occurrence ⊆
      (log ++ stage.logs).filterMap Call.occurrence := by
    rw [List.filterMap_append]
    exact List.subset_append_left _ _
  cases stage with
  | create c =>
    refine ⟨rfl, ?_, ?_, hmeta.mono hmono, ?_⟩
    · rw [recorded_append]
      simp only [Stage.run, Stage.logs, List.filterMap_cons, List.filterMap_nil, Call.occurrence,
        firsts_concat, hocc]
    · simpa [Stage.run, Stage.logs, Call.entry, List.filterMap_cons] using hchecks
    · rintro next ⟨⟩
      simp [Stage.Sound, Stage.logs, Call.occurrence]
  | loadMeta c =>
    refine ⟨rfl, ?_, ?_, hmeta.mono hmono, ?_⟩
    · simpa [Stage.run, Stage.logs] using hocc
    · simpa [Stage.run, Stage.logs] using hchecks
    · rintro next ⟨⟩
      exact ⟨hmono hs, hmeta.mono hmono⟩
  | saveMeta c existing =>
    refine ⟨rfl, ?_, ?_, (datedBy_metaDoc hs.1 hs.2).mono hmono, by rintro next ⟨⟩⟩
    · simpa [Stage.run, Stage.logs] using hocc
    · simpa [Stage.run, Stage.logs] using hchecks
  | saveRecommendation doc =>
    refine ⟨rfl, ?_, ?_, hmeta.mono hmono, by rintro next ⟨⟩⟩
    · simpa [Stage.run, Stage.logs, Call.occurrence, List.filterMap_cons] using hocc
    · simpa [Stage.run, Stage.logs, Call.entry, List.filterMap_cons] using hchecks
  | saveCheck c =>
    cases hentry : c.entry with
    | none =>
      refine ⟨rfl, ?_, ?_, hmeta.mono hmono, by simp [Stage.run, hentry]⟩
      · simpa [Stage.run, Stage.logs, Call.occurrence, hentry, List.filterMap_cons] using hocc
      · simpa [Stage.run, Stage.logs, Call.entry, hentry, List.filterMap_cons] using hchecks
    | some entry =>
      refine ⟨rfl, ?_, ?_, hmeta.mono hmono, ?_⟩
      · simpa [Stage.run, Stage.logs, hentry] using hocc
      · simpa [Stage.run, Stage.logs, hentry] using hchecks
      · intro next hnext
        obtain rfl : Stage.createCheck c entry = next := by simpa [Stage.run, hentry] using hnext
        exact hentry
  | createCheck c entry =>
    refine ⟨rfl, ?_, ?_, hmeta.mono hmono, by rintro next ⟨⟩⟩
    · simpa [Stage.run, Stage.logs, Call.occurrence, List.filterMap_cons] using hocc
    · have hentry : c.entry = some entry := hs
      simp only [Stage.run, Stage.logs, List.filterMap_append, List.filterMap_cons,
        List.filterMap_nil, Call.entry, hentry, firsts_concat, hchecks]

/-- An operation saves `meta.json`, or leaves it as it is and its record still to be dated. -/
theorem Stage.run_saves (stage : Stage T F K) (p : Files T F K) :
    (stage.run p).1.metaDoc.isSome ∨ (stage.run p).1.metaDoc = p.metaDoc ∧
      ∀ o, (stage.dating = some o ∨ o ∈ stage.logs.filterMap Call.occurrence) →
        ∃ next ∈ (stage.run p).2, next.dating = some o := by
  cases stage with
  | create c =>
    refine .inr ⟨rfl, fun o ho => ⟨_, rfl, ?_⟩⟩
    rcases ho with ho | ho
    · cases ho
    · exact congrArg some (List.mem_singleton.1 ho).symm
  | loadMeta c =>
    refine .inr ⟨rfl, fun o ho => ⟨_, rfl, ?_⟩⟩
    rcases ho with ho | ho
    · exact ho
    · cases ho
  | saveMeta c existing => exact .inl rfl
  | saveRecommendation doc => exact .inr ⟨rfl, by simp [Stage.dating, Stage.logs, Call.occurrence]⟩
  | saveCheck c =>
    refine .inr ⟨rfl, fun o ho => ?_⟩
    cases hentry : c.entry <;> simp [Stage.dating, Stage.logs, hentry, Call.occurrence] at ho
  | createCheck c entry =>
    exact .inr ⟨rfl, by simp [Stage.dating, Stage.logs, Call.occurrence]⟩

theorem sound_step (hs : Sound s₀ s) (h : (groupCalls T F K).step s a = some t) : Sound s₀ t := by
  rcases step_cases h with ⟨c, -, rfl⟩ | ⟨i, stage, rest, -, hbefore, hafter, hfiles, hlog⟩
  · refine ⟨hs.legacy, hs.occurrences, hs.checks, hs.dated, fun stage hmem => ?_, ?_⟩
    · rcases List.mem_append.1 hmem with hmem | hmem
      · exact hs.running stage hmem
      · obtain rfl := List.mem_singleton.1 hmem
        cases c <;> trivial
    · rcases hs.saved with hsome | hpending
      · exact .inl hsome
      · refine .inr fun o ho => ?_
        obtain ⟨stage, hmem, hdating⟩ := hpending o ho
        exact ⟨stage, List.mem_append_left _ hmem, hdating⟩
  · have hstage : stage.Sound s.recorded :=
      hs.running stage (hbefore.symm.subset List.mem_cons_self)
    obtain ⟨hlegacy, hocc, hchecks, hdated, hnext⟩ :=
      Stage.run_spec hs.occurrences hs.checks hs.dated hstage
    have hrecorded : t.recorded = s.recorded ++ stage.logs.filterMap Call.occurrence := by
      simp only [Group.recorded, hlog, List.filterMap_append]
    rw [← hlog] at hocc hchecks hdated hnext
    rw [← hfiles] at hlegacy hocc hchecks hdated
    refine ⟨hlegacy.trans hs.legacy, hocc, hchecks, hdated, fun z hz => ?_, ?_⟩
    · rcases List.mem_append.1 (hafter.subset hz) with hz | hz
      · exact hnext z (Option.mem_toList.1 hz)
      · have hold := hs.running z (hbefore.symm.subset (List.mem_cons_of_mem _ hz))
        refine hold.mono ?_
        rw [hrecorded]
        exact List.subset_append_left _ _
    · rcases stage.run_saves s.files with hsome | ⟨hsame, hcarry⟩
      · exact .inl (hfiles ▸ hsome)
      rcases hs.saved with hsome | hpending
      · exact .inl (by rw [hfiles, hsame, hsome])
      refine .inr fun o ho => ?_
      -- the record is dated by the call that goes on, or by another
      have hgoes : (∃ z ∈ rest, z.dating = some o) ∨
          (stage.dating = some o ∨ o ∈ stage.logs.filterMap Call.occurrence) := by
        rw [hrecorded] at ho
        rcases List.mem_append.1 ho with ho | ho
        · obtain ⟨z, hz, hdating⟩ := hpending o ho
          rcases List.mem_cons.1 (hbefore.subset hz) with rfl | hz
          · exact .inr (.inl hdating)
          · exact .inl ⟨z, hz, hdating⟩
        · exact .inr (.inr ho)
      rcases hgoes with ⟨z, hz, hdating⟩ | hgoes
      · exact ⟨z, hafter.symm.subset (List.mem_append_right _ hz), hdating⟩
      · obtain ⟨next, hnext, hdating⟩ := hcarry o hgoes
        have hmem : next ∈ (stage.run s.files).2.toList := Option.mem_toList.2 hnext
        exact ⟨next, hafter.symm.subset (List.mem_append_left _ hmem), hdating⟩

theorem sound_start (h : (groupCalls T F K).start s) : Sound s s := by
  obtain ⟨hocc, hchecks, hmeta, hrunning, hlog⟩ := h
  refine ⟨rfl, ?_, ?_, ?_, ?_, ?_⟩
  · rw [hocc, Group.recorded, hlog]
    rfl
  · rw [hchecks, Group.checked, hlog]
    rfl
  · rw [hmeta]
    exact nofun
  · rw [hrunning]
    exact nofun
  · rw [Group.recorded, hlog]
    exact .inr nofun

theorem sound_of_later {C : Group T F K → Act T F K → Prop} (h₀ : (groupCalls T F K).start s₀)
    (h : (groupCalls T F K).Later C s₀ s) : Sound s₀ s :=
  h.relate (R := Sound) (sound_start h₀) fun _ _ _ _ hs _ ht => sound_step hs ht

end

end ResidentCrm.Dlt.GroupStore
