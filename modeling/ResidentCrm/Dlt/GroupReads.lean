import ResidentCrm.Dlt.GroupStore
import ResidentCrm.Lib.Machine

/-!
# Reading a group

`load_group` over either backend, with listings and reads that fail, and its cache. `load` of a
backend answers a failed read as it answers an object that is absent, or raises, and so does the
listing of the local one; so an object that is there may be left out of the composition, and the
composition is cached all the same (`whole_iff_meets`).
-/

namespace ResidentCrm.Dlt.GroupStore

universe u v w x

inductive Backend where
  | s3
  | localDisk
deriving DecidableEq, Repr

/-- How a read of an object fails: the backend does not answer (`get_object` raises, the file's
lock is not had in time), or what it answers cannot be read or parsed (on local disk also what
`exists()`, which swallows its errors, could not look at). -/
inductive Fault where
  | unanswered
  | unreadable
deriving DecidableEq, Repr

/-- `load` of the backends. The outer `none` is an exception, the inner one the answer `None`. -/
def Backend.load {α : Type x} (b : Backend) (stored : Option α) (fault : Option Fault) :
    Option (Option α) :=
  match b, stored, fault with
  | _, none, _ => some none
  | _, some a, none => some (some a)
  | .s3, some _, some _ => some none
  | .localDisk, some _, some .unreadable => some none
  | .localDisk, some _, some .unanswered => none

/-- How a listing fails: a page of it, or the directory, is not had; or, on local disk, it passes over
what `is_dir()` and `is_file()`, which swallow their errors, could not look at: all of it, where
that is the directory. -/
inductive ListFault (α : Type x) where
  | unanswered
  | passesOver (unseen : α → Bool)

/-- `list_json` of the backends, for objects of the given names. -/
def Backend.list {α : Type x} {β : Type w} (b : Backend) (name : α → β) (stored : List α)
    (fault : Option (ListFault β)) : Option (List α) :=
  match b, fault with
  | _, none => some stored
  | .s3, some _ => none
  | .localDisk, some .unanswered => none
  | .localDisk, some (.passesOver unseen) => some (stored.filter fun a => !unseen (name a))

/-- `_read_all`, of what is listed: a record in memory is not read again, and one that reads as
`None` is passed over. -/
def readAll {α : Type x} (b : Backend) (inMemory : α → Bool) (fault : α → Option Fault) :
    List α → Option (List α)
  | [] => some []
  | a :: rest =>
    if inMemory a then (readAll b inMemory fault rest).map (a :: ·)
    else (b.load (some a) (fault a)).bind fun record =>
      (readAll b inMemory fault rest).map (record.toList ++ ·)

/-- What of one `load_group` can be read. Verdicts of the code check are told apart by their place
in the listing. -/
structure Reads (T : Type u) where
  lists : Option (ListFault Text) := none
  listsChecks : Option (ListFault ℕ) := none
  inMemory : Text → Bool := fun _ => false
  occurrence : Text → Option Fault := fun _ => none
  checkInMemory : ℕ → Bool := fun _ => false
  check : ℕ → Option Fault := fun _ => none
  metaDoc : Option Fault := none
  recommendation : Option Fault := none
  codeCheck : Option Fault := none
  legacy : Option Fault := none
  /-- When the cache is read, and when it is filled. -/
  now : T
  later : T

variable {T : Type u} {F : Type v} {K : Type w}

/-- The reads of `load_group`; of the frozen record an exception is swallowed too. -/
def Files.read (b : Backend) (r : Reads T) (p : Files T F K) : Option (Files T F K) :=
  (b.list Occurrence.caseId p.occurrences r.lists).bind fun listed =>
  (readAll b (r.inMemory ·.caseId) (r.occurrence ·.caseId) listed).bind fun occurrences =>
  (b.list Prod.snd p.checks.zipIdx r.listsChecks).bind fun listedChecks =>
  (readAll b (r.checkInMemory ·.2) (r.check ·.2) listedChecks).bind fun checks =>
  (b.load p.metaDoc r.metaDoc).bind fun metaDoc =>
  (b.load p.recommendation r.recommendation).bind fun recommendation =>
  (b.load p.codeCheck r.codeCheck).bind fun codeCheck =>
  some { occurrences, checks := checks.map Prod.fst, metaDoc, recommendation, codeCheck,
         legacy := (b.load p.legacy r.legacy).getD none }

/-! ## The process -/

/-- A composed group, and, as history, what was stored when it was composed. -/
structure Composed (T : Type u) (F : Type v) (K : Type w) where
  group : Option (GroupRecord T F K)
  stored : Files T F K

/-- The store, the cache of one process, and the groups its loads have returned. -/
structure Reader (T : Type u) (F : Type v) (K : Type w) where
  files : Files T F K
  cache : Option (T × Composed T F K) := none
  served : List (Composed T F K) := []

inductive ReadAct (T : Type u) (F : Type v) (K : Type w) where
  | load (r : Reads T)
  /-- A write of this process, which drops the cached group. -/
  | write (files : Files T F K)
  /-- A write of another process. -/
  | written (files : Files T F K)

structure ReaderConfig (T : Type u) where
  backend : Backend
  ttl : T
  cap : ℕ
  fingerprint : Text

section

variable [LinearOrder T] [Sub T] (cfg : ReaderConfig T)

/-- `_cache_get`. -/
def Reader.cacheGet (s : Reader T F K) (now : T) : Option (Composed T F K) :=
  (s.cache.filter fun entry => now - entry.1 < cfg.ttl).map Prod.snd

/-- `load_group`. -/
def Reader.load (s : Reader T F K) (r : Reads T) : Reader T F K :=
  match s.cacheGet cfg r.now with
  | some composed => { s with served := composed :: s.served }
  | none =>
    match s.files.read cfg.backend r with
    | none => s
    | some p =>
      let composed := ⟨p.compose cfg.cap cfg.fingerprint, s.files⟩
      { s with cache := some (r.later, composed), served := composed :: s.served }

def groupReader (F : Type v) (K : Type w) : Machine (Reader T F K) (ReadAct T F K) where
  start s := s.cache = none ∧ s.served = []
  step s
    | .load r => some (s.load cfg r)
    | .write files => some { s with files, cache := none }
    | .written files => some { s with files }

end

/-! ## What is whole -/

def countOf (g : Option (GroupRecord T F K)) : ℤ := g.elim 0 (·.occurrenceCount)

def recommendationOf (g : Option (GroupRecord T F K)) : Option F := g.bind (·.recommendation)

/-- The group counts what was stored, and carries the recommendation on file. -/
structure Composed.Whole (c : Composed T F K) : Prop where
  count : countOf c.group = c.stored.occurrenceCount
  carries : ∀ f ∈ c.stored.served.bind (·.recommendation), recommendationOf c.group = some f

/-- The listing does not pass over the name. -/
def ListFault.lists {α : Type x} : Option (ListFault α) → α → Bool
  | some (.passesOver unseen), a => !unseen a
  | _, _ => true

/-- The backend raises at the listing. -/
def ListFault.Raises {α : Type x} (b : Backend) : Option (ListFault α) → Prop
  | none => False
  | some .unanswered => True
  | some (.passesOver _) => b = .s3

/-- The backend raises at the read of an object that is there. -/
def Fault.Raises (b : Backend) (fault : Option Fault) : Prop :=
  b = .localDisk ∧ fault = some .unanswered

/-- A listing raises, or the read of an object that is there: of one that is listed and not in
memory, or of one of the three that are asked for by name; of the frozen record it would be
swallowed. -/
inductive Reads.Raises (b : Backend) (r : Reads T) (p : Files T F K) : Prop
  | lists : ListFault.Raises b r.lists → r.Raises b p
  | listsChecks : ListFault.Raises b r.listsChecks → r.Raises b p
  | occurrence {o : Occurrence T} : o ∈ p.occurrences → ListFault.lists r.lists o.caseId = true →
      r.inMemory o.caseId = false → Fault.Raises b (r.occurrence o.caseId) → r.Raises b p
  | check {e : CheckEntry × ℕ} : e ∈ p.checks.zipIdx → ListFault.lists r.listsChecks e.2 = true →
      r.checkInMemory e.2 = false → Fault.Raises b (r.check e.2) → r.Raises b p
  | metaDoc : p.metaDoc.isSome → Fault.Raises b r.metaDoc → r.Raises b p
  | recommendation : p.recommendation.isSome → Fault.Raises b r.recommendation → r.Raises b p
  | codeCheck : p.codeCheck.isSome → Fault.Raises b r.codeCheck → r.Raises b p

/-- The occurrence is listed, and is in memory or read. -/
def Reads.sees (r : Reads T) (o : Occurrence T) : Bool :=
  ListFault.lists r.lists o.caseId && (r.inMemory o.caseId || (r.occurrence o.caseId).isNone)

/-- The frozen record is there and not read. -/
def Reads.LosesLegacy (r : Reads T) (p : Files T F K) : Prop := p.legacy.isSome ∧ r.legacy.isSome

/-- Every occurrence that counts is listed and read; and where the frozen record is not, as many are
read as it makes the count. -/
def Reads.Counts (r : Reads T) (p : Files T F K) : Prop :=
  (¬ r.LosesLegacy p → ∀ o ∈ p.fresh, r.sees o = true) ∧
    (r.LosesLegacy p → (p.occurrences.countP r.sees : ℤ) =
      p.legacy.elim 0 Legacy.count + p.fresh.length)

/-- The recommendation on file is read, or the frozen record is, and it has the same one. -/
def Reads.Carries (r : Reads T) (p : Files T F K) : Prop :=
  ∀ f ∈ p.served.bind (·.recommendation),
    (p.recommendation.isSome ∧ r.recommendation.isNone) ∨
      (r.legacy.isNone ∧ p.legacy.bind (·.recommendation) = some f)

/-! ## What a load reads -/

section

variable {b : Backend} {r : Reads T} {p q : Files T F K}

theorem Backend.load_eq {α : Type x} {stored answer : Option α} {fault : Option Fault}
    (h : b.load stored fault = some answer) :
    answer = if fault.isNone then stored else none := by
  cases stored with
  | none =>
    obtain rfl : none = answer := by simpa [Backend.load] using h
    simp
  | some a =>
    cases fault with
    | none =>
      obtain rfl : some a = answer := by simpa [Backend.load] using h
      rfl
    | some fault =>
      cases b <;> cases fault <;> simp [Backend.load] at h <;> exact h.symm

theorem readAll_eq {α : Type x} {inMemory : α → Bool} {fault : α → Option Fault} :
    ∀ {l answer : List α}, readAll b inMemory fault l = some answer →
      answer = l.filter fun a => inMemory a || (fault a).isNone
  | [], answer, h => by
    obtain rfl : [] = answer := Option.some.inj h
    rfl
  | a :: rest, answer, h => by
    unfold readAll at h
    split at h
    · next hmemory =>
      obtain ⟨tail, htail, rfl⟩ := Option.map_eq_some_iff.1 h
      rw [List.filter_cons_of_pos (by simp [hmemory]), readAll_eq htail]
    · next hmemory =>
      obtain ⟨record, hrecord, hrest⟩ := Option.bind_eq_some_iff.1 h
      obtain ⟨tail, htail, rfl⟩ := Option.map_eq_some_iff.1 hrest
      rw [readAll_eq htail, Backend.load_eq hrecord]
      cases hfault : (fault a).isNone <;> simp [hmemory, hfault]

theorem list_eq {α : Type x} {β : Type w} {name : α → β} {stored answer : List α}
    {fault : Option (ListFault β)} (h : b.list name stored fault = some answer) :
    answer = stored.filter fun a => ListFault.lists fault (name a) := by
  have hall : stored = answer → answer = stored.filter fun _ => true := by
    rintro rfl
    simp
  match b, fault, h with
  | .s3, none, h => exact hall (Option.some.inj h)
  | .localDisk, none, h => exact hall (Option.some.inj h)
  | .localDisk, some (.passesOver unseen), h => exact (Option.some.inj h).symm

theorem read_spec (h : p.read b r = some q) : q.occurrences = p.occurrences.filter r.sees ∧
    q.legacy = (if r.legacy.isNone then p.legacy else none) ∧
    q.recommendation = (if r.recommendation.isNone then p.recommendation else none) := by
  unfold Files.read at h
  obtain ⟨listed, hlisted, h⟩ := Option.bind_eq_some_iff.1 h
  obtain ⟨occurrences, hocc, h⟩ := Option.bind_eq_some_iff.1 h
  obtain ⟨listedChecks, -, h⟩ := Option.bind_eq_some_iff.1 h
  obtain ⟨checks, -, h⟩ := Option.bind_eq_some_iff.1 h
  obtain ⟨metaDoc, -, h⟩ := Option.bind_eq_some_iff.1 h
  obtain ⟨recommendation, hrec, h⟩ := Option.bind_eq_some_iff.1 h
  obtain ⟨codeCheck, -, h⟩ := Option.bind_eq_some_iff.1 h
  obtain rfl := Option.some.inj h
  have hsees : occurrences = p.occurrences.filter r.sees := by
    rw [readAll_eq hocc, list_eq hlisted, List.filter_filter]
    exact List.filter_congr fun o _ => Bool.and_comm _ _
  refine ⟨hsees, ?_, Backend.load_eq hrec⟩
  change (b.load p.legacy r.legacy).getD none = _
  cases hload : b.load p.legacy r.legacy with
  | some answer => exact Backend.load_eq hload
  | none =>
    -- an exception is swallowed, and comes of a fault
    cases hfault : r.legacy with
    | none =>
      rw [hfault] at hload
      cases hlegacy : p.legacy <;> simp [Backend.load, hlegacy] at hload
    | some fault => rfl

theorem Backend.load_eq_none {α : Type x} {stored : Option α} {fault : Option Fault} :
    b.load stored fault = none ↔ stored.isSome ∧ Fault.Raises b fault := by
  cases stored with
  | none => simp [Backend.load]
  | some a =>
    cases fault with
    | none => simp [Backend.load, Fault.Raises]
    | some fault => cases b <;> cases fault <;> simp [Backend.load, Fault.Raises]

theorem list_eq_none {α : Type x} {β : Type w} {name : α → β} {stored : List α}
    {fault : Option (ListFault β)} :
    b.list name stored fault = none ↔ ListFault.Raises b fault := by
  cases fault with
  | none => cases b <;> simp [Backend.list, ListFault.Raises]
  | some fault => cases b <;> cases fault <;> simp [Backend.list, ListFault.Raises]

theorem readAll_eq_none {α : Type x} {inMemory : α → Bool} {fault : α → Option Fault}
    {l : List α} : readAll b inMemory fault l = none ↔
      ∃ a ∈ l, inMemory a = false ∧ Fault.Raises b (fault a) := by
  induction l with
  | nil => simp [readAll]
  | cons a l ih =>
    rw [readAll, List.exists_mem_cons_iff]
    cases hmemory : inMemory a with
    | true => simp [ih]
    | false =>
      rw [if_neg Bool.false_ne_true, Option.bind_eq_none_iff]
      simp only [Option.map_eq_none_iff, ih, true_and]
      cases hload : b.load (some a) (fault a) with
      | none => simpa using .inl (Backend.load_eq_none.1 hload).2
      | some record =>
        have hnot : ¬ Fault.Raises b (fault a) := fun h => by
          rw [Backend.load_eq_none.2 ⟨rfl, h⟩] at hload
          cases hload
        simp [hnot]

/-- **A load raises exactly where a listing or a read of it does.** -/
theorem read_eq_none : p.read b r = none ↔ r.Raises b p := by
  constructor
  · intro h
    unfold Files.read at h
    cases hlisted : b.list Occurrence.caseId p.occurrences r.lists with
    | none => exact .lists (list_eq_none.1 hlisted)
    | some listed =>
    rw [hlisted, Option.bind_some] at h
    cases hocc : readAll b (r.inMemory ·.caseId) (r.occurrence ·.caseId) listed with
    | none =>
      obtain ⟨o, ho, hmemory, hraises⟩ := readAll_eq_none.1 hocc
      rw [list_eq hlisted] at ho
      obtain ⟨ho, hlists⟩ := List.mem_filter.1 ho
      exact .occurrence ho hlists hmemory hraises
    | some occurrences =>
    rw [hocc, Option.bind_some] at h
    cases hlistedChecks : b.list Prod.snd p.checks.zipIdx r.listsChecks with
    | none => exact .listsChecks (list_eq_none.1 hlistedChecks)
    | some listedChecks =>
    rw [hlistedChecks, Option.bind_some] at h
    cases hchecks : readAll b (r.checkInMemory ·.2) (r.check ·.2) listedChecks with
    | none =>
      obtain ⟨e, he, hmemory, hraises⟩ := readAll_eq_none.1 hchecks
      rw [list_eq hlistedChecks] at he
      obtain ⟨he, hlists⟩ := List.mem_filter.1 he
      exact .check he hlists hmemory hraises
    | some checks =>
    rw [hchecks, Option.bind_some] at h
    cases hmeta : b.load p.metaDoc r.metaDoc with
    | none => exact .metaDoc (Backend.load_eq_none.1 hmeta).1 (Backend.load_eq_none.1 hmeta).2
    | some metaDoc =>
    rw [hmeta, Option.bind_some] at h
    cases hrec : b.load p.recommendation r.recommendation with
    | none => exact .recommendation (Backend.load_eq_none.1 hrec).1 (Backend.load_eq_none.1 hrec).2
    | some recommendation =>
    rw [hrec, Option.bind_some] at h
    cases hcheck : b.load p.codeCheck r.codeCheck with
    | none => exact .codeCheck (Backend.load_eq_none.1 hcheck).1 (Backend.load_eq_none.1 hcheck).2
    | some codeCheck =>
    rw [hcheck, Option.bind_some] at h
    cases h
  · intro h
    cases hread : p.read b r with
    | none => rfl
    | some q =>
    unfold Files.read at hread
    obtain ⟨listed, hlisted, hread⟩ := Option.bind_eq_some_iff.1 hread
    obtain ⟨occurrences, hocc, hread⟩ := Option.bind_eq_some_iff.1 hread
    obtain ⟨listedChecks, hlistedChecks, hread⟩ := Option.bind_eq_some_iff.1 hread
    obtain ⟨checks, hchecks, hread⟩ := Option.bind_eq_some_iff.1 hread
    obtain ⟨metaDoc, hmeta, hread⟩ := Option.bind_eq_some_iff.1 hread
    obtain ⟨recommendation, hrec, hread⟩ := Option.bind_eq_some_iff.1 hread
    obtain ⟨codeCheck, hcheck, -⟩ := Option.bind_eq_some_iff.1 hread
    cases h with
    | lists hraises => cases (list_eq_none.2 hraises).symm.trans hlisted
    | listsChecks hraises => cases (list_eq_none.2 hraises).symm.trans hlistedChecks
    | @occurrence o ho hlists hmemory hraises =>
      have hmem : o ∈ listed := by
        rw [list_eq hlisted]
        exact List.mem_filter.2 ⟨ho, hlists⟩
      cases (readAll_eq_none.2 ⟨o, hmem, hmemory, hraises⟩).symm.trans hocc
    | @check e he hlists hmemory hraises =>
      have hmem : e ∈ listedChecks := by
        rw [list_eq hlistedChecks]
        exact List.mem_filter.2 ⟨he, hlists⟩
      cases (readAll_eq_none.2 ⟨e, hmem, hmemory, hraises⟩).symm.trans hchecks
    | metaDoc hthere hraises => cases (Backend.load_eq_none.2 ⟨hthere, hraises⟩).symm.trans hmeta
    | recommendation hthere hraises =>
      cases (Backend.load_eq_none.2 ⟨hthere, hraises⟩).symm.trans hrec
    | codeCheck hthere hraises =>
      cases (Backend.load_eq_none.2 ⟨hthere, hraises⟩).symm.trans hcheck

theorem count_iff (h : p.read b r = some q) :
    q.occurrenceCount = p.occurrenceCount ↔ r.Counts p := by
  obtain ⟨hocc, hlegacy, -⟩ := read_spec h
  by_cases hloses : r.LosesLegacy p
  · have hnone : q.legacy = none := by
      rw [hlegacy, Option.isNone_eq_false_iff.2 hloses.2]
      rfl
    have hfresh : q.fresh = p.occurrences.filter r.sees := by
      rw [Files.fresh, hocc, List.filter_eq_self]
      intro o _
      simp [Files.Lists, Files.memberIds, hnone]
    have hcounts : r.Counts p ↔ (p.occurrences.countP r.sees : ℤ) =
        p.legacy.elim 0 Legacy.count + p.fresh.length := by
      simp only [Reads.Counts, hloses, not_true_eq_false, false_implies, true_implies, true_and]
    rw [hcounts, Files.occurrenceCount, Files.occurrenceCount, hnone, hfresh,
      List.countP_eq_length_filter]
    simp
  · have hsame : q.legacy = p.legacy := by
      rw [hlegacy]
      cases hfault : r.legacy with
      | none => rfl
      | some fault =>
        cases hp : p.legacy with
        | none => rfl
        | some l => exact absurd ⟨by simp [hp], by simp [hfault]⟩ hloses
    have hfresh : q.fresh = p.fresh.filter r.sees := by
      simp only [Files.fresh, hocc, List.filter_filter, Files.lists_congr hsame, Bool.and_comm]
    have hcounts : r.Counts p ↔ ∀ o ∈ p.fresh, r.sees o = true := by
      simp only [Reads.Counts, hloses, not_false_eq_true, true_implies, false_implies, and_true]
    rw [hcounts, Files.occurrenceCount, Files.occurrenceCount, hsame, hfresh,
      ← List.length_filter_eq_length_iff]
    omega

theorem carries_iff (h : p.read b r = some q) :
    (∀ f ∈ p.served.bind (·.recommendation), q.served.bind (·.recommendation) = some f) ↔
      r.Carries p := by
  obtain ⟨-, hlegacy, hrec⟩ := read_spec h
  refine forall₂_congr fun f hf => ?_
  have hfrozen : ∀ l : Option (Legacy T F K), ((l.bind fun l => l.recommendation.map fun f =>
      ({ recommendation := some f, state := l.recommendationState.getD "none".toList } :
        RecommendationDoc F)).bind (·.recommendation)) = l.bind (·.recommendation) := by
    rintro (_ | l)
    · rfl
    · cases hl : l.recommendation <;> simp [hl]
  unfold Files.served at hf ⊢
  rw [hrec, hlegacy]
  cases hp : p.recommendation with
  | none =>
    rw [hp, Option.none_or, hfrozen] at hf
    simp only [ite_self, Option.none_or, hfrozen, Option.isSome_none, Bool.false_eq_true, false_and,
      false_or]
    cases r.legacy <;> simp [Option.mem_def.1 hf]
  | some doc =>
    rw [hp, Option.some_or, Option.bind_some] at hf
    cases r.recommendation with
    | none => simpa using hf
    | some fault =>
      simp only [Option.isNone_some, Bool.false_eq_true, if_false, Option.none_or, hfrozen,
        and_false, false_or]
      cases r.legacy <;> simp

end

/-! ## What a load returns -/

section

variable [LinearOrder T] [Sub T] {cfg : ReaderConfig T} {r : Reads T} {p q : Files T F K}
  {s t : Reader T F K} {a : ReadAct T F K}

omit [Sub T] in
theorem whole_compose_iff {b : Backend} {cap : ℕ} {fingerprint : Text}
    (h : p.read b r = some q) :
    (Composed.mk (q.compose cap fingerprint) p).Whole ↔ r.Counts p ∧ r.Carries p := by
  have hcount : countOf (q.compose cap fingerprint) = q.occurrenceCount := by
    unfold countOf Files.compose
    split
    · next hblank =>
      obtain ⟨hocc, -, -, -, -, hlegacy⟩ := hblank
      simp [Files.occurrenceCount, Files.fresh, hocc, Option.isNone_iff_eq_none.1 hlegacy]
    · rfl
  have hcarries : recommendationOf (q.compose cap fingerprint) =
      q.served.bind (·.recommendation) := by
    unfold recommendationOf Files.compose
    split
    · next hblank =>
      obtain ⟨-, -, -, hrec, -, hlegacy⟩ := hblank
      simp [Files.served, Option.isNone_iff_eq_none.1 hrec, Option.isNone_iff_eq_none.1 hlegacy]
    · rfl
  have hwhole : (Composed.mk (q.compose cap fingerprint) p).Whole ↔
      countOf (q.compose cap fingerprint) = p.occurrenceCount ∧
        ∀ f ∈ p.served.bind (·.recommendation),
          recommendationOf (q.compose cap fingerprint) = some f :=
    ⟨fun hw => ⟨hw.count, hw.carries⟩, fun hw => ⟨hw.1, hw.2⟩⟩
  rw [hwhole, hcount, hcarries, count_iff h, carries_iff h]

/-- The load is served from the cache, or raises, or silently misses nothing that matters. -/
def Reads.Complete (cfg : ReaderConfig T) (s : Reader T F K) : ReadAct T F K → Prop
  | .load r => (s.cacheGet cfg r.now).isSome ∨ r.Raises cfg.backend s.files ∨
      r.Counts s.files ∧ r.Carries s.files
  | _ => True

/-- What is cached has been returned. -/
def Reader.Returned (s : Reader T F K) : Prop := ∀ entry ∈ s.cache, entry.2 ∈ s.served

theorem mem_served_of_cacheGet (hs : s.Returned) {now : T} {c : Composed T F K}
    (h : s.cacheGet cfg now = some c) : c ∈ s.served := by
  obtain ⟨entry, hentry, rfl⟩ := Option.map_eq_some_iff.1 h
  exact hs entry (Option.filter_eq_some_iff.1 hentry).1

theorem load_cases (cfg : ReaderConfig T) (s : Reader T F K) (r : Reads T) :
    (∃ c, s.cacheGet cfg r.now = some c ∧ s.load cfg r = { s with served := c :: s.served }) ∨
    (s.cacheGet cfg r.now = none ∧ s.files.read cfg.backend r = none ∧ s.load cfg r = s) ∨
    ∃ p c, s.cacheGet cfg r.now = none ∧ s.files.read cfg.backend r = some p ∧
      c = ⟨p.compose cfg.cap cfg.fingerprint, s.files⟩ ∧
      s.load cfg r = { s with cache := some (r.later, c), served := c :: s.served } := by
  unfold Reader.load
  cases hcache : s.cacheGet cfg r.now with
  | some c => exact .inl ⟨c, rfl, rfl⟩
  | none =>
    cases hread : s.files.read cfg.backend r with
    | none => exact .inr (.inl ⟨rfl, rfl, rfl⟩)
    | some p => exact .inr (.inr ⟨p, _, rfl, rfl, rfl, rfl⟩)

theorem returned_step (hs : s.Returned) (h : (groupReader cfg F K).step s a = some t) :
    t.Returned := by
  cases a with
  | write files =>
    obtain rfl := Option.some.inj h
    intro entry hentry
    cases hentry
  | written files =>
    obtain rfl := Option.some.inj h
    exact hs
  | load r =>
    obtain rfl := Option.some.inj h
    rcases load_cases cfg s r with ⟨c, -, heq⟩ | ⟨-, -, heq⟩ | ⟨p, c, -, -, -, heq⟩ <;> rw [heq]
    · intro entry hentry
      exact List.mem_cons_of_mem _ (hs entry hentry)
    · exact hs
    · rintro entry ⟨⟩
      exact List.mem_cons_self

theorem whole_step_iff (hs : s.Returned) (h : (groupReader cfg F K).step s a = some t) :
    (∀ c ∈ t.served, c.Whole) ↔ (∀ c ∈ s.served, c.Whole) ∧ Reads.Complete cfg s a := by
  cases a with
  | write files =>
    obtain rfl := Option.some.inj h
    exact (and_iff_left trivial).symm
  | written files =>
    obtain rfl := Option.some.inj h
    exact (and_iff_left trivial).symm
  | load r =>
    obtain rfl := Option.some.inj h
    change (∀ c ∈ (s.load cfg r).served, c.Whole) ↔ (∀ c ∈ s.served, c.Whole) ∧
      ((s.cacheGet cfg r.now).isSome ∨ r.Raises cfg.backend s.files ∨
        r.Counts s.files ∧ r.Carries s.files)
    rw [← read_eq_none]
    rcases load_cases cfg s r with ⟨c, hcache, heq⟩ | ⟨-, hread, heq⟩ |
      ⟨p, c, hcache, hread, rfl, heq⟩ <;> rw [heq]
    · rw [hcache, and_iff_left (.inl rfl), List.forall_mem_cons]
      exact and_iff_right_of_imp fun hw => hw c (mem_served_of_cacheGet hs hcache)
    · exact (and_iff_left (.inr (.inl hread))).symm
    · rw [List.forall_mem_cons, whole_compose_iff hread, hcache, hread, and_comm]
      simp

/-- **Every group returned is whole exactly where no load silently misses what it should count or
carry**, be it read or served from the cache. -/
theorem whole_iff_meets (hs : (groupReader cfg F K).start s) {as : List (ReadAct T F K)}
    (h : (groupReader cfg F K).run s as = some t) : (∀ c ∈ t.served, c.Whole) ↔
      (groupReader cfg F K).Meets (Reads.Complete cfg) s as := by
  obtain ⟨hcache, hserved⟩ := hs
  have hreturned : s.Returned := by
    intro entry hentry
    rw [hcache] at hentry
    cases hentry
  have hwhole : ∀ c ∈ s.served, c.Whole := by
    intro c hc
    rw [hserved] at hc
    cases hc
  rw [Machine.keeps_iff_meets (M := groupReader cfg F K) (C := Reads.Complete cfg)
    (I := Reader.Returned) (P := fun u => ∀ c ∈ u.served, c.Whole)
    (fun u a v hu hv => returned_step hu hv) (fun u a v hu hv => whole_step_iff hu hv) hreturned h]
  exact and_iff_right hwhole

end

/-! ## An occurrence that cannot be read -/

def overS3 : ReaderConfig ℕ := ⟨.s3, 5, 200, "fp".toList⟩

def twoCases : Reader ℕ Text Unit where
  files :=
    { occurrences :=
        [{ caseId := "dlt-1".toList, time := 1 }, { caseId := "dlt-2".toList, time := 2 }]
      recommendation := some ⟨some "restart".toList, "draft".toList, none, none⟩ }

/-- The body of the second occurrence is cut short. -/
def truncated : Reads ℕ where
  occurrence caseId := if caseId = "dlt-2".toList then some .unreadable else none
  now := 10
  later := 10

def untroubled : Reads ℕ where
  now := 11
  later := 11

theorem whole_iff_meets_twoCases : ∃ t ∈ (groupReader overS3 Text Unit).run twoCases
      [.load untroubled, .load truncated], (∀ c ∈ t.served, c.Whole) ↔
    (groupReader overS3 Text Unit).Meets (Reads.Complete overS3) twoCases
      [.load untroubled, .load truncated] :=
  ⟨_, rfl, whole_iff_meets ⟨rfl, rfl⟩ rfl⟩

/-- The group counts one case of two, and is served again from the cache when all can be read. -/
theorem half_a_group_served : (groupReader overS3 Text Unit).start twoCases ∧
    ∃ t ∈ (groupReader overS3 Text Unit).run twoCases [.load truncated, .load untroubled],
      t.served.map (fun c => (countOf c.group, c.stored.occurrenceCount)) = [(1, 2), (1, 2)] :=
  ⟨⟨rfl, rfl⟩, _, rfl, by decide⟩

end ResidentCrm.Dlt.GroupStore
