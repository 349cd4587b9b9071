import ResidentCrm.Dlt.Parked
import ResidentCrm.Lib.Machine

/-!
# The parked queue

The store of parked replays over any sequence of `park` and `release_ready`, for one release worker.
A state is the store and, as history, the cases queued for replay. A pass lists the store and reads
its entries, either of which may fail; queueing an entry and marking it are two effects, and the
mark may fail after the first.

What a pass may do with an entry is `Ends`, and an entry is otherwise left as it was written
(`lifecycle_sound`).
-/

namespace ResidentCrm.Dlt

structure ParkedQueue (R γ : Type*) where
  entries : List (Entry R γ)
  queued : List Text

/-- A pass of the worker: `release_ready`, and what of the store can be read. -/
structure Pass (R : Type*) where
  release : Release R
  lists : Bool
  reads : Text → Bool

inductive QueueAct (R γ : Type*) where
  | park (cap : ℕ) (store : ParkStore) (caseId : Text) (refId : Option Text) (check : CodeCheck)
      (now : R) (basis : γ)
  | pass (p : Pass R)

variable {R γ : Type*}

def Pass.sees (p : Pass R) (e : Entry R γ) : Bool := p.lists && p.reads e.caseId

def ParkedQueue.lookup (s : ParkedQueue R γ) (caseId : Text) : Option (Entry R γ) :=
  s.entries.find? (·.caseId = caseId)

/-! ## What becomes of an entry -/

theorem nodup_map_concat {α β : Type*} {f : α → β} {l : List α} {a : α} (h : (l.map f).Nodup)
    (ha : ∀ b ∈ l, f b ≠ f a) : ((l ++ [a]).map f).Nodup := by
  rw [List.map_append, List.map_singleton]
  refine List.nodup_append.2 ⟨h, List.nodup_singleton _, ?_⟩
  intro x hx y hy
  obtain ⟨b, hb, rfl⟩ := List.mem_map.1 hx
  rw [List.mem_singleton.1 hy]
  exact ha b hb

/-- What stays of an entry: all but its status, and that too once it is no longer parked. -/
structure Succeeds (e e' : Entry R γ) : Prop where
  caseId : e'.caseId = e.caseId
  refId : e'.refId = e.refId
  requiredVersion : e'.requiredVersion = e.requiredVersion
  parkedAt : e'.parkedAt = e.parkedAt
  finished : e.status ≠ .parked → e'.status = e.status

theorem Succeeds.refl (e : Entry R γ) : Succeeds e e := ⟨rfl, rfl, rfl, rfl, fun _ => rfl⟩

theorem Succeeds.trans {e e' e'' : Entry R γ} (h : Succeeds e e') (h' : Succeeds e' e'') :
    Succeeds e e'' where
  caseId := h'.caseId.trans h.caseId
  refId := h'.refId.trans h.refId
  requiredVersion := h'.requiredVersion.trans h.requiredVersion
  parkedAt := h'.parkedAt.trans h.parkedAt
  finished hdone := by
    have hstatus := h.finished hdone
    have hdone' : e'.status ≠ .parked := by
      rw [hstatus]
      exact hdone
    exact (h'.finished hdone').trans hstatus

/-- `park` leaves the entries of the store as they are, and may add one for a case that has none. -/
theorem park_cases (cap : ℕ) (store : ParkStore) (entries : List (Entry R γ)) (caseId : Text)
    (refId : Option Text) (check : CodeCheck) (now : R) (basis : γ) :
    (park cap store entries caseId refId check now basis).2 = entries ∨
      ∃ e, (park cap store entries caseId refId check now basis).2 = entries ++ [e] ∧
        e.status = .parked ∧ (∀ e' ∈ entries, e'.caseId ≠ e.caseId) ∧ e.caseId = caseId ∧
        e.basis = basis := by
  unfold park
  split
  · exact .inl rfl
  split
  · exact .inl rfl
  split
  · exact .inl rfl
  split
  · exact .inl rfl
  dsimp only
  generalize (if store.lists then entries.countP (·.status = .parked) else 0) = waiting
  split
  · exact .inl rfl
  split
  · exact .inl rfl
  split
  · exact .inl rfl
  next hfind =>
  have hfresh : ∀ e' ∈ entries, e'.caseId ≠ caseId := by
    simpa using List.find?_eq_none.1 hfind
  exact .inr ⟨_, rfl, rfl, hfresh, rfl, rfl⟩

variable [LinearOrder R] [Sub R] [Zero R]

/-! ## The machine -/

def Pass.standing (p : Pass R) (e : Entry R γ) : ParkedStanding :=
  parkedStanding p.release.cfg (lowest p.release.cfg.pattern p.release.running) p.release.now e

/-- The cases a pass queues, in order. -/
def Pass.queues (p : Pass R) (entries : List (Entry R γ)) : List Text :=
  ((p.release.replayed (entries.filter p.sees)).filter (p.release.queues ·.caseId)).map
    Entry.caseId

def Pass.mark (p : Pass R) (e : Entry R γ) : Entry R γ := if p.sees e then p.release.mark e else e

def parkedQueue (R γ : Type*) [LinearOrder R] [Sub R] [Zero R] :
    Machine (ParkedQueue R γ) (QueueAct R γ) where
  start s := (s.entries.map Entry.caseId).Nodup ∧ s.queued = []
  step s
    | .park cap store caseId refId check now basis =>
      some { s with entries := (park cap store s.entries caseId refId check now basis).2 }
    | .pass p => some ⟨s.entries.map p.mark, s.queued ++ p.queues s.entries⟩

/-! ## The ways out -/

/-- The entry has been parked for longer than the TTL. -/
def Release.Outlived (r : Release R) (e : Entry R γ) : Prop :=
  0 < r.cfg.ttl ∧ r.cfg.ttl < r.now - e.since r.now

/-- The lowest running version is at the one the entry requires. -/
def Release.Satisfied (r : Release R) (e : Entry R γ) : Prop :=
  ∃ low ∈ lowest r.cfg.pattern r.running,
    atLeast r.cfg.pattern (.parsed low) (.text e.requiredVersion) = some true

/-- The ways out of the parked state, for an entry of the store `entries`. -/
def QueueAct.Ends (entries : List (Entry R γ)) (e : Entry R γ) : QueueAct R γ → ParkStatus → Prop
  | .pass p, .released => p.release.dryRun = false ∧ p.release.Satisfied e ∧
      e.caseId ∈ p.queues entries
  | .pass p, .expired => p.release.dryRun = false ∧ p.release.Outlived e
  | _, _ => False

section

variable {r : Release R} {p : Pass R} {e : Entry R γ} {s t : ParkedQueue R γ} {a : QueueAct R γ}
  {c : Text}

theorem standing_eq_expired {cfg : ParkConfig R} {running : Option Version} {now : R}
    (h : parkedStanding cfg running now e = .expired) : 0 < cfg.ttl ∧
    cfg.ttl < now - e.since now := by
  unfold parkedStanding at h
  split at h
  · assumption
  · split at h <;> cases h

theorem standing_eq_ready {cfg : ParkConfig R} {running : Option Version} {now : R}
    (h : parkedStanding cfg running now e = .ready) : ∃ low ∈ running,
      atLeast cfg.pattern (.parsed low) (.text e.requiredVersion) = some true := by
  unfold parkedStanding at h
  split at h
  · cases h
  split at h
  · cases h
  · cases h
  next hsat => exact Option.bind_eq_some_iff.1 hsat

/-- What a release makes of an entry: it is left alone, or it was parked and is expired, or it was
parked and handed to the replay tool, which queued it. -/
theorem mark_cases (r : Release R) (e : Entry R γ) : r.mark e = e ∨
    (r.dryRun = false ∧ e.status = .parked ∧ r.Outlived e ∧
      r.mark e = { e with status := .expired }) ∨
    (r.dryRun = false ∧ e.status = .parked ∧
      parkedStanding r.cfg (lowest r.cfg.pattern r.running) r.now e = .ready ∧ e.refId ≠ [] ∧
      r.queues e.caseId = true ∧ r.mark e = { e with status := .released }) := by
  unfold Release.mark
  split
  · exact .inl rfl
  next hskip =>
  simp only [not_or, not_not, Bool.not_eq_true, Bool.not_eq_false] at hskip
  obtain ⟨hdry, hparked, -⟩ := hskip
  split
  · next hstanding => exact .inr (.inl ⟨hdry, hparked, standing_eq_expired hstanding, rfl⟩)
  · next hstanding =>
    split
    · next hqueued => exact .inr (.inr ⟨hdry, hparked, hstanding, hqueued.1, hqueued.2, rfl⟩)
    · exact .inl rfl
  · exact .inl rfl
  · exact .inl rfl

theorem mem_queues {entries : List (Entry R γ)} : c ∈ p.queues entries ↔
    p.release.dryRun = false ∧ ∃ e ∈ entries, e.caseId = c ∧ p.sees e = true ∧
      e.status = .parked ∧ p.standing e = .ready ∧ e.refId ≠ [] ∧ p.release.queues c = true := by
  simp only [Pass.queues, List.mem_map, List.mem_filter, mem_replayed, Pass.standing]
  constructor
  · rintro ⟨e, ⟨⟨hdry, ⟨he, hsees⟩, hparked, hready, href⟩, hqueues⟩, rfl⟩
    exact ⟨hdry, e, he, rfl, hsees, hparked, hready, href, hqueues⟩
  · rintro ⟨hdry, e, he, rfl, hsees, hparked, hready, href, hqueues⟩
    exact ⟨e, ⟨⟨hdry, ⟨he, hsees⟩, hparked, hready, href⟩, hqueues⟩, rfl⟩

/-- One entry in one pass. -/
theorem Pass.mark_spec {entries : List (Entry R γ)} (he : e ∈ entries) :
    Succeeds e (p.mark e) ∧ (e.status = .parked → (p.mark e).status ≠ .parked →
      QueueAct.Ends entries e (.pass p) (p.mark e).status) := by
  have hstay : Succeeds e e ∧ (e.status = .parked → e.status ≠ .parked →
      QueueAct.Ends entries e (.pass p) e.status) :=
    ⟨Succeeds.refl e, fun hparked hnot => absurd hparked hnot⟩
  unfold Pass.mark
  split
  swap
  · exact hstay
  next hsees =>
  rcases mark_cases p.release e with heq | ⟨hdry, hparked, hold, heq⟩ |
    ⟨hdry, hparked, hready, href, hqueued, heq⟩ <;> rw [heq]
  · exact hstay
  · exact ⟨⟨rfl, rfl, rfl, rfl, fun h => absurd hparked h⟩, fun _ _ => ⟨hdry, hold⟩⟩
  · refine ⟨⟨rfl, rfl, rfl, rfl, fun h => absurd hparked h⟩, fun _ _ => ?_⟩
    have hin : e.caseId ∈ p.queues entries :=
      mem_queues.2 ⟨hdry, e, he, rfl, hsees, hparked, hready, href, hqueued⟩
    exact ⟨hdry, standing_eq_ready hready, hin⟩

theorem Pass.mark_caseId (p : Pass R) (e : Entry R γ) : (p.mark e).caseId = e.caseId :=
  (Pass.mark_spec (List.mem_singleton_self e)).1.caseId

/-- One step. -/
theorem lookup_step (h : (parkedQueue R γ).step s a = some t) (he : s.lookup c = some e) :
    ∃ e', t.lookup c = some e' ∧ Succeeds e e' ∧
      (e.status = .parked → e'.status ≠ .parked → a.Ends s.entries e e'.status) := by
  cases a with
  | park cap store caseId refId check now basis =>
    obtain rfl := Option.some.inj h
    refine ⟨e, ?_, Succeeds.refl e, fun hparked hnot => absurd hparked hnot⟩
    unfold ParkedQueue.lookup at he ⊢
    rcases park_cases cap store s.entries caseId refId check now basis with hsame | ⟨new, hnew, -⟩
    · rw [hsame, he]
    · rw [hnew, List.find?_append, he, Option.some_or]
  | pass p =>
    obtain rfl := Option.some.inj h
    have hmem : e ∈ s.entries := List.mem_of_find?_eq_some he
    refine ⟨p.mark e, ?_, Pass.mark_spec hmem⟩
    have hcomp : (fun e : Entry R γ => decide (e.caseId = c)) ∘ p.mark =
        fun e => decide (e.caseId = c) := by
      funext e
      simp only [Function.comp, Pass.mark_caseId]
    unfold ParkedQueue.lookup at he ⊢
    rw [List.find?_map, hcomp, he, Option.map_some]

theorem entries_of_dryRun (hdry : p.release.dryRun = true)
    (h : (parkedQueue R γ).step s (.pass p) = some t) : t.entries = s.entries := by
  obtain rfl := Option.some.inj h
  refine List.map_id'' (fun e => ?_) _
  unfold Pass.mark
  split
  · simp [Release.mark, hdry]
  · rfl

end

/-- **The life of a parked entry.** It leaves the parked state by a queued replay the running
versions allow, or by its age; a dry run changes nothing; and nothing else of it ever changes, nor
its status once it is not parked. -/
theorem lifecycle_sound (s : ParkedQueue R γ) :
    (∀ a t, (parkedQueue R γ).step s a = some t → ∀ c e, s.lookup c = some e →
      ∃ e', t.lookup c = some e' ∧ Succeeds e e' ∧
        (e.status = .parked → e'.status ≠ .parked → a.Ends s.entries e e'.status)) ∧
    (∀ p t, p.release.dryRun = true → (parkedQueue R γ).step s (.pass p) = some t →
      t.entries = s.entries) ∧
    ∀ t, (parkedQueue R γ).Later Machine.anyStep s t → ∀ c e, s.lookup c = some e →
      ∃ e', t.lookup c = some e' ∧ Succeeds e e' := by
  refine ⟨fun a t h c e he => lookup_step h he, fun p t hdry h => entries_of_dryRun hdry h,
    fun t ht => ?_⟩
  refine ht.relate (R := fun s t : ParkedQueue R γ => ∀ c e, s.lookup c = some e →
    ∃ e', t.lookup c = some e' ∧ Succeeds e e') (fun c e he => ⟨e, he, Succeeds.refl e⟩) ?_
  intro t a u _ hst _ htu c e he
  obtain ⟨e', he', hsucc⟩ := hst c e he
  obtain ⟨e'', he'', hsucc', -⟩ := lookup_step htu he'
  exact ⟨e'', he'', hsucc.trans hsucc'⟩

end ResidentCrm.Dlt
