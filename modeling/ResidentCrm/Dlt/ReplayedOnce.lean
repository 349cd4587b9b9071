import Mathlib.Data.Fintype.Basic
import ResidentCrm.Dlt.CaseTurns

/-!
# One replay of a case

A case is queued by the one run that acts for it, or, where that run parked its packet, by a pass,
which lists what is parked, queues an entry and then marks it. In a run of the system that is
`Orderly`, each case is replayed at most once and a discarded run has done nothing
(`CaseRuns.replayed_once`). Otherwise two runs of one delivery both replay it, and both are
discarded (`CaseRuns.replayed_and_discarded`).
-/

namespace ResidentCrm.Dlt

open Storage

variable {ι κ R : Type*}

/-- The pass has queued the case and is still to mark it. -/
def PassPhase.Releases {γ : Type*} (p : PassPhase R γ) (caseId : Text) : Prop :=
  ∃ e ∈ p.toMark, e.caseId = caseId ∧ e.status = .released

/-- A step of the replay, of the parking or of a pass. -/
def CaseAct.OfQueue : CaseAct ι κ R → Prop
  | replays .. | parks .. | lists _ | examines _ | marks _ => True
  | _ => False

variable [LinearOrder R] (c : CaseConfig ι κ R)

namespace CaseRuns

/-- The store has a parked entry of the same case, parked by the same run. -/
def Stores (s : CaseRuns ι κ R) (e : Entry R ι) : Prop :=
  ∃ old ∈ s.entries, old.caseId = e.caseId ∧ old.basis = e.basis ∧ old.status = .parked

/-- What has been queued, what is parked, and what the passes have in hand of it. -/
structure Queue (s : CaseRuns ι κ R) : Prop where
  keys : (s.entries.map Entry.caseId).Nodup
  queuedBy : ∀ r ∈ s.queued, ∀ i ∈ r.sender.run?, r.caseId = c.caseId i
  parkedBy : ∀ e ∈ s.entries, e.caseId = c.caseId e.basis
  unparked : ∀ r ∈ s.queued, ∀ i ∈ r.sender.run?, ∀ e ∈ s.entries, e.basis ≠ i
  once : (s.queued.map QueuedReplay.caseId).Nodup
  /-- What a pass queued is parked no longer, or the pass is about to mark it. -/
  released : ∀ r ∈ s.queued, ∀ q ∈ r.sender.pass?, ∃ e ∈ s.entries, e.caseId = r.caseId ∧
    (e.status = .parked → (s.passes q).Releases r.caseId)
  dry : ∀ q, (c.pass q).release.dryRun = true → (s.passes q).toMark = none
  nodup : ∀ q, (c.pass q).release.dryRun = false →
    ((s.passes q).inHand.map Entry.caseId).Nodup
  stores : ∀ q, (c.pass q).release.dryRun = false → ∀ e ∈ (s.passes q).inHand, s.Stores e
  onePass : ∀ p q, (c.pass p).release.dryRun = false → (c.pass q).release.dryRun = false →
    (s.passes p).inHand ≠ [] → (s.passes q).inHand ≠ [] → p = q

variable {c} {s t : CaseRuns ι κ R} {i : ι} {p : κ}

omit [LinearOrder R] in
theorem queue_fresh (h : s.Fresh) : s.Queue c := by
  have hpasses : ∀ q, (s.passes q).inHand = [] := fun q => by rw [h.passes q]; rfl
  refine ⟨?_, ?_, ?_, ?_, ?_, ?_, ?_, ?_, ?_, ?_⟩
  · simp [h.entries]
  · simp [h.queued]
  · simp [h.entries]
  · simp [h.queued]
  · simp [h.queued]
  · simp [h.queued]
  · intro q _
    rw [h.passes q]
    rfl
  · simp [hpasses]
  · simp [hpasses]
  · intro p q _ _ hp
    exact absurd (hpasses p) hp

omit [LinearOrder R] in
/-- A step that queues nothing, parks nothing and is no pass's. -/
theorem Queue.of_eq (hQ : s.Queue c) (hentries : t.entries = s.entries)
    (hqueued : t.queued = s.queued) (hpasses : t.passes = s.passes) : t.Queue c := by
  obtain ⟨files, holder, runs, consumers, passes, entries, queued⟩ := t
  obtain rfl := hentries
  obtain rfl := hqueued
  obtain rfl := hpasses
  exact ⟨hQ.keys, hQ.queuedBy, hQ.parkedBy, hQ.unparked, hQ.once, hQ.released, hQ.dry, hQ.nodup,
    hQ.stores, hQ.onePass⟩

/-- Who queues a case or has it parked is the one run that acts for it. -/
theorem Queue.basis_eq (hQ : s.Queue c) (hT : ∀ j, s.Turn c j) {e : Entry R ι}
    (he : e ∈ s.entries) (hi : i ∈ s.actors) (hcase : e.caseId = c.caseId i) : e.basis = i := by
  refine ((hT i).acts hi).sole _ (basis_mem_actors he) ?_
  rw [← hQ.parkedBy e he, hcase]

omit [LinearOrder R] in
theorem not_releases_working {γ : Type*} {es : List (Entry R γ)} {caseId : Text} :
    ¬ (PassPhase.working es).Releases caseId := by
  rintro ⟨e, he, -⟩
  cases he

omit [LinearOrder R] in
theorem releases_marking {γ : Type*} {e : Entry R γ} {es : List (Entry R γ)} {caseId : Text} :
    (PassPhase.marking e es).Releases caseId ↔ e.caseId = caseId ∧ e.status = .released := by
  simp [PassPhase.Releases, PassPhase.toMark]

omit [LinearOrder R] in
/-- The pass that is about to mark what it queued is the one that has anything in hand. -/
theorem Queue.eq_of_releases (hQ : s.Queue c) (hdry : (c.pass p).release.dryRun = false)
    (hne : (s.passes p).inHand ≠ []) {q : κ} {caseId : Text}
    (h : (s.passes q).Releases caseId) : q = p := by
  obtain ⟨e, he, -⟩ := h
  have hmarks : (s.passes q).toMark ≠ none := by
    rw [he]
    exact Option.some_ne_none e
  refine hQ.onePass q p ?_ hdry ?_ hne
  · by_contra hq
    exact hmarks (hQ.dry q (by simpa using hq))
  · cases hphase : s.passes q with
    | marking e' es => exact List.cons_ne_nil _ _
    | waiting | working es =>
      rw [hphase] at hmarks
      exact absurd rfl hmarks

/-! ## What keeps it -/

omit [LinearOrder R] in
/-- A replay is queued of a case that was not. -/
theorem Queue.queue (hQ : s.Queue c) {r : QueuedReplay ι κ}
    (hnew : ∀ r' ∈ s.queued, r'.caseId ≠ r.caseId)
    (hrun : ∀ i ∈ r.sender.run?, r.caseId = c.caseId i ∧ ∀ e ∈ s.entries, e.basis ≠ i)
    (hpass : ∀ q ∈ r.sender.pass?, (s.passes q).Releases r.caseId ∧
      ∃ e ∈ s.entries, e.caseId = r.caseId) :
    CaseRuns.Queue c { s with queued := s.queued ++ [r] } := by
  refine ⟨hQ.keys, ?_, hQ.parkedBy, ?_, nodup_map_concat hQ.once hnew, ?_, hQ.dry, hQ.nodup,
    hQ.stores, hQ.onePass⟩
  · intro r' hr' i hi
    rcases List.mem_append.1 hr' with hr' | hr'
    · exact hQ.queuedBy r' hr' i hi
    · obtain rfl := List.mem_singleton.1 hr'
      exact (hrun i hi).1
  · intro r' hr' i hi
    rcases List.mem_append.1 hr' with hr' | hr'
    · exact hQ.unparked r' hr' i hi
    · obtain rfl := List.mem_singleton.1 hr'
      exact (hrun i hi).2
  · intro r' hr' q hq
    rcases List.mem_append.1 hr' with hr' | hr'
    · exact hQ.released r' hr' q hq
    · obtain rfl := List.mem_singleton.1 hr'
      obtain ⟨hreleases, e, he, hcase⟩ := hpass q hq
      exact ⟨e, he, hcase, fun _ => hreleases⟩

omit [LinearOrder R] in
/-- A run parks the packet of a case that has no entry. -/
theorem Queue.enter (hQ : s.Queue c) {e : Entry R ι} (hcase : e.caseId = c.caseId e.basis)
    (hfresh : ∀ e' ∈ s.entries, e'.caseId ≠ e.caseId)
    (hunqueued : ∀ r ∈ s.queued, e.basis ∉ r.sender.run?) :
    CaseRuns.Queue c { s with entries := s.entries ++ [e] } := by
  refine ⟨nodup_map_concat hQ.keys hfresh, hQ.queuedBy, ?_, ?_, hQ.once, ?_, hQ.dry, hQ.nodup, ?_,
    hQ.onePass⟩
  · intro e' he'
    rcases List.mem_append.1 he' with he' | he'
    · exact hQ.parkedBy e' he'
    · rw [List.mem_singleton.1 he']
      exact hcase
  · intro r hr i hi e' he'
    rcases List.mem_append.1 he' with he' | he'
    · exact hQ.unparked r hr i hi e' he'
    · rw [List.mem_singleton.1 he']
      rintro rfl
      exact hunqueued r hr hi
  · intro r hr q hq
    obtain ⟨e', he', h⟩ := hQ.released r hr q hq
    exact ⟨e', List.mem_append_left _ he', h⟩
  · intro q hdry e' he'
    obtain ⟨old, hold, h⟩ := hQ.stores q hdry e' he'
    exact ⟨old, List.mem_append_left _ hold, h⟩

omit [LinearOrder R] in
/-- A pass goes on. -/
theorem Queue.setPass [DecidableEq κ] (hQ : s.Queue c) {phase : PassPhase R ι}
    (hreleases : ∀ caseId, (s.passes p).Releases caseId → phase.Releases caseId)
    (hdry : (c.pass p).release.dryRun = true → phase.toMark = none)
    (hhand : (c.pass p).release.dryRun = false → (phase.inHand.map Entry.caseId).Nodup ∧
      (∀ e ∈ phase.inHand, s.Stores e) ∧ (phase.inHand ≠ [] → ∀ q, q ≠ p →
        (c.pass q).release.dryRun = false → (s.passes q).inHand = [])) :
    (s.setPass p phase).Queue c := by
  have hself : (s.setPass p phase).passes p = phase := by simp [CaseRuns.setPass]
  have hother : ∀ q, q ≠ p → (s.setPass p phase).passes q = s.passes q := fun q hqp => by
    simp [CaseRuns.setPass, hqp]
  refine ⟨hQ.keys, hQ.queuedBy, hQ.parkedBy, hQ.unparked, hQ.once, ?_, ?_, ?_, ?_, ?_⟩
  · intro r hr q hq
    obtain ⟨e, he, hcase, hparked⟩ := hQ.released r hr q hq
    refine ⟨e, he, hcase, fun h => ?_⟩
    by_cases hqp : q = p
    · subst hqp
      rw [hself]
      exact hreleases _ (hparked h)
    · rw [hother q hqp]
      exact hparked h
  · intro q
    by_cases hqp : q = p
    · subst hqp
      rwa [hself]
    · rw [hother q hqp]
      exact hQ.dry q
  · intro q hq
    by_cases hqp : q = p
    · subst hqp
      rw [hself]
      exact (hhand hq).1
    · rw [hother q hqp]
      exact hQ.nodup q hq
  · intro q hq
    by_cases hqp : q = p
    · subst hqp
      rw [hself]
      exact (hhand hq).2.1
    · rw [hother q hqp]
      exact hQ.stores q hq
  · intro q q' hq hq' hne hne'
    by_contra hqq
    by_cases hqp : q = p
    · subst hqp
      rw [hself] at hne
      rw [hother q' (Ne.symm hqq)] at hne'
      exact hne' ((hhand hq).2.2 hne q' (Ne.symm hqq) hq')
    · rw [hother q hqp] at hne
      by_cases hqp' : q' = p
      · subst hqp'
        rw [hself] at hne'
        exact hne ((hhand hq').2.2 hne' q hqp hq)
      · rw [hother q' hqp'] at hne'
        exact hqq (hQ.onePass q q' hq hq' hne hne')

omit [LinearOrder R] in
theorem overwrite_caseId (e old : Entry R ι) : (overwrite e old).caseId = old.caseId := by
  unfold overwrite
  split
  · next h => exact h.symm
  · rfl

omit [LinearOrder R] in
/-- The entry a pass had listed comes from the run that the one in the store does. -/
theorem Queue.overwrite_basis (hQ : s.Queue c) {e : Entry R ι} (hstores : s.Stores e) :
    ∀ old ∈ s.entries, (overwrite e old).basis = old.basis := by
  intro old hold
  unfold overwrite
  split
  · next h =>
    obtain ⟨old', hold', hcase', hbasis', -⟩ := hstores
    obtain rfl : old' = old := List.inj_on_of_nodup_map hQ.keys hold' hold (by rw [hcase', h])
    exact hbasis'.symm
  · rfl

omit [LinearOrder R] in
/-- A pass marks an entry: no other pass has any in hand. -/
theorem Queue.mark [DecidableEq κ] (hQ : s.Queue c) {e : Entry R ι} {es : List (Entry R ι)}
    (hphase : s.passes p = .marking e es) (hdry : (c.pass p).release.dryRun = false) :
    CaseRuns.Queue c { s.setPass p (.working es) with entries := s.entries.map (overwrite e) } := by
  have hhand : (s.passes p).inHand = e :: es := by rw [hphase]; rfl
  have hne : (s.passes p).inHand ≠ [] := by rw [hhand]; exact List.cons_ne_nil _ _
  have hempty : ∀ q, q ≠ p → (c.pass q).release.dryRun = false → (s.passes q).inHand = [] := by
    intro q hqp hq
    by_contra hne'
    exact hqp (hQ.onePass q p hq hdry hne' hne)
  have hstores := hQ.stores p hdry
  have hnodup := hQ.nodup p hdry
  rw [hhand] at hstores hnodup
  have hbasis := hQ.overwrite_basis (hstores e (List.mem_cons_self ..))
  -- The entry as it is stored: it is parked still.
  obtain ⟨old, hold, holdCase, -, holdParked⟩ := hstores e (List.mem_cons_self ..)
  have hself : (s.setPass p (.working es)).passes p = .working es := by simp [CaseRuns.setPass]
  have hother : ∀ q, q ≠ p → (s.setPass p (.working es)).passes q = s.passes q := fun q hqp => by
    simp [CaseRuns.setPass, hqp]
  refine ⟨?_, hQ.queuedBy, ?_, ?_, hQ.once, ?_, ?_, ?_, ?_, ?_⟩
  · have hmap : (s.entries.map (overwrite e)).map Entry.caseId = s.entries.map Entry.caseId := by
      rw [List.map_map]
      exact List.map_congr_left fun old _ => overwrite_caseId e old
    rw [hmap]
    exact hQ.keys
  · intro e' he'
    obtain ⟨old, hold, rfl⟩ := List.mem_map.1 he'
    rw [overwrite_caseId, hbasis old hold]
    exact hQ.parkedBy old hold
  · intro r hr i hi e' he'
    obtain ⟨old, hold, rfl⟩ := List.mem_map.1 he'
    rw [hbasis old hold]
    exact hQ.unparked r hr i hi old hold
  · intro r hr q hq
    obtain ⟨e₀, he₀, hcase, hreleases⟩ := hQ.released r hr q hq
    refine ⟨_, List.mem_map_of_mem he₀, (overwrite_caseId e e₀).trans hcase, fun hparked => ?_⟩
    -- A pass that had queued the case was to mark it, so it is this one, and marks it released.
    have hpass : (s.passes q).Releases r.caseId → q = p := hQ.eq_of_releases hdry hne
    unfold overwrite at hparked
    split at hparked
    · next hsame =>
      obtain rfl : old = e₀ := List.inj_on_of_nodup_map hQ.keys hold he₀ (by rw [holdCase, hsame])
      have hq := hreleases holdParked
      rw [hpass hq, hphase, releases_marking, hparked] at hq
      cases hq.2
    · next hsame =>
      have hq := hreleases hparked
      rw [hpass hq, hphase, releases_marking] at hq
      exact absurd (hcase.trans hq.1.symm) hsame
  · intro q hq
    by_cases hqp : q = p
    · subst hqp
      exact absurd (hdry.symm.trans hq) Bool.false_ne_true
    · show ((s.setPass p (.working es)).passes q).toMark = none
      rw [hother q hqp]
      exact hQ.dry q hq
  · intro q hq
    by_cases hqp : q = p
    · subst hqp
      show (((s.setPass q (.working es)).passes q).inHand.map Entry.caseId).Nodup
      rw [hself]
      exact (List.nodup_cons.1 hnodup).2
    · show (((s.setPass p (.working es)).passes q).inHand.map Entry.caseId).Nodup
      rw [hother q hqp]
      exact hQ.nodup q hq
  · intro q hq e' he'
    have hmem : e' ∈ ((s.setPass p (.working es)).passes q).inHand := he'
    by_cases hqp : q = p
    · subst hqp
      rw [hself] at hmem
      obtain ⟨old', hold', hcase', hbasis', hparked'⟩ := hstores e' (List.mem_cons_of_mem _ hmem)
      refine ⟨old', List.mem_map.2 ⟨old', hold', if_neg fun h => ?_⟩, hcase', hbasis', hparked'⟩
      refine (List.nodup_cons.1 hnodup).1 (List.mem_map.2 ⟨e', hmem, ?_⟩)
      rw [← hcase', h]
    · rw [hother q hqp, hempty q hqp hq] at hmem
      cases hmem
  · have hmono : ∀ q, ((s.setPass p (.working es)).passes q).inHand ≠ [] →
        (s.passes q).inHand ≠ [] := by
      intro q hq
      by_cases hqp : q = p
      · exact hqp ▸ hne
      · rwa [hother q hqp] at hq
    exact fun q q' hq hq' h h' => hQ.onePass q q' hq hq' (hmono q h) (hmono q' h')

/-! ## One step -/

section Steps

variable [DecidableEq ι] [DecidableEq κ] [Sub R] [Zero R]

/-- A run queues the replay of a case for which nobody has acted. -/
theorem queue_replays (hT : ∀ j, s.Turn c j) (hT' : ∀ j, t.Turn c j) (hQ : s.Queue c)
    {queues : Bool} (h : s.step c (.replays i queues) = some t) : t.Queue c := by
  simp only [step] at h
  split at h
  swap
  · cases h
  next f check hphase =>
  obtain rfl := Option.some.inj h
  have hnot : i ∉ s.actors := (hT i).not_mem (by simp [hphase, RunPhase.Past])
  have hnext : (s.setRun i (.parking f check)).Queue c := hQ.of_eq rfl rfl rfl
  by_cases hqueued : (c.sends i f check && queues) = true
  swap
  · rw [if_neg hqueued]
    exact hnext
  rw [if_pos hqueued] at hT' ⊢
  -- Whoever had acted for the case would be this run.
  have hnone : ∀ j ∈ s.actors, c.caseId j ≠ c.caseId i := by
    intro j hj hcase
    have hmem : ∀ k, k ∈ s.actors ∨ k = i → k ∈ CaseRuns.actors
        { s.setRun i (.parking f check) with queued := s.queued ++ [⟨c.caseId i, .run i⟩] } := by
      rintro k (hk | rfl)
      · rcases mem_actors.1 hk with ⟨r, hr, hk⟩ | ⟨e, he, rfl⟩
        · exact run_mem_actors (List.mem_append_left _ hr) hk
        · exact basis_mem_actors he
      · exact run_mem_actors (List.mem_append_right _ (List.mem_singleton_self _)) rfl
    have hsole := ((hT' i).acts (hmem i (.inr rfl))).sole j (hmem j (.inl hj)) hcase
    exact hnot (hsole ▸ hj)
  refine hnext.queue ?_ ?_ ?_
  · rintro ⟨caseId, sender⟩ hr hcase
    cases sender with
    | run j =>
      have hj := hQ.queuedBy _ hr j rfl
      exact hnone j (run_mem_actors hr rfl) (hj.symm.trans hcase)
    | pass q =>
      obtain ⟨e, he, hcase', -⟩ := hQ.released _ hr q rfl
      refine hnone e.basis (basis_mem_actors he) ?_
      rw [← hQ.parkedBy e he, hcase', hcase]
  · rintro j hj
    obtain rfl : i = j := Option.some.inj hj
    refine ⟨rfl, ?_⟩
    rintro e he rfl
    exact hnot (basis_mem_actors he)
  · intro q hq
    cases hq

theorem queue_parks (hT : ∀ j, s.Turn c j) (hQ : s.Queue c) {store : ParkStore} {now : R}
    (h : s.step c (.parks i store now) = some t) : t.Queue c := by
  simp only [step] at h
  split at h
  swap
  · cases h
  next f check hphase =>
  obtain rfl := Option.some.inj h
  have hnext : (s.setRun i (.guarding .status (terminalStatusOf f))).Queue c := hQ.of_eq rfl rfl rfl
  rcases c.parked_cases i f check store now s.entries with
    hsame | ⟨-, -, e, he, -, hfresh, hcase, rfl⟩
  · rw [hsame]
    exact hnext
  rw [he]
  refine hnext.enter hcase hfresh fun r hr hi => ?_
  -- A run that queued a replay parks nothing.
  have hsends := ((hT e.basis).acts (run_mem_actors hr hi)).sent f check hphase
  rw [CaseConfig.parked_of_sends hsends] at he
  simp at he

/-- A pass lists what is parked, and no other has anything in hand. -/
theorem queue_lists (hQ : s.Queue c) (hC : Orderly c s (.lists p))
    (h : s.step c (.lists p) = some t) : t.Queue c := by
  obtain ⟨hphase, ⟨⟩⟩ := Option.ite_none_right_eq_some.1 h
  refine hQ.setPass (fun caseId hreleases => ?_) (fun _ => rfl) fun hdry =>
    ⟨?_, ?_, fun _ => hC hdry⟩
  · rw [hphase] at hreleases
    obtain ⟨e, he, -⟩ := hreleases
    cases he
  · have hsublist : ((s.entries.filter (c.pass p).sees).filter (·.status = .parked)).Sublist
        s.entries := List.filter_sublist.trans List.filter_sublist
    have hperm := List.perm_insertionSort (fun e e' : Entry R ι => e.parkedAt ≤ e'.parkedAt)
      ((s.entries.filter (c.pass p).sees).filter (·.status = .parked))
    exact (hperm.map _).nodup_iff.2 (hQ.keys.sublist (hsublist.map _))
  · intro e he
    have hlisted := List.mem_filter.1 ((List.mem_insertionSort _).1 he)
    exact ⟨e, List.mem_of_mem_filter hlisted.1, rfl, rfl, by simpa using hlisted.2⟩

/-- A pass queues the replay of a case that is parked, and which it alone has in hand. -/
theorem queue_examines (hT : ∀ j, s.Turn c j) (hQ : s.Queue c)
    (h : s.step c (.examines p) = some t) : t.Queue c := by
  simp only [step, passExamines] at h
  split at h
  swap
  · cases h
  next e es hphase =>
  have hhand : (s.passes p).inHand = e :: es := by rw [hphase]; rfl
  have hne : (s.passes p).inHand ≠ [] := by rw [hhand]; exact List.cons_ne_nil _ _
  have hempty : (c.pass p).release.dryRun = false → ∀ q, q ≠ p →
      (c.pass q).release.dryRun = false → (s.passes q).inHand = [] := by
    intro hdry q hqp hq
    by_contra hne'
    exact hqp (hQ.onePass q p hq hdry hne' hne)
  have hstores := hQ.stores p
  have hnodup := hQ.nodup p
  rw [hhand] at hstores hnodup
  have hworking : ∀ caseId, ¬ (s.passes p).Releases caseId := by
    intro caseId
    rw [hphase]
    exact not_releases_working
  split at h
  · obtain rfl := Option.some.inj h
    refine hQ.setPass (fun caseId h => absurd h (hworking caseId)) (fun _ => rfl) fun hdry =>
      ⟨(List.nodup_cons.1 (hnodup hdry)).2, fun e' he' => ?_, fun _ => hempty hdry⟩
    exact hstores hdry e' (List.mem_cons_of_mem _ he')
  next v hexamined =>
  obtain rfl := Option.some.inj h
  have hdry : (c.pass p).release.dryRun = false := by
    by_contra hdry
    rw [Pass.examine, if_pos (by simpa using hdry)] at hexamined
    cases hexamined
  have hnext : (s.setPass p (.marking { e with status := v } es)).Queue c := by
    refine hQ.setPass (fun caseId h => absurd h (hworking caseId)) (fun hdry' => ?_) fun _ =>
      ⟨hnodup hdry, fun e' he' => ?_, fun _ => hempty hdry⟩
    · exact absurd (hdry.symm.trans hdry') Bool.false_ne_true
    · rcases List.mem_cons.1 he' with rfl | he'
      · exact hstores hdry e (List.mem_cons_self ..)
      · exact hstores hdry e' (List.mem_cons_of_mem _ he')
  split
  swap
  · exact hnext
  next hreleased =>
  subst hreleased
  obtain ⟨old, hold, hcase, -, hparked⟩ := hstores hdry e (List.mem_cons_self ..)
  refine hnext.queue ?_ ?_ fun q hq => ?_
  · -- Parked, it has been queued by no run; and by no pass, which would be about to mark it.
    rintro ⟨caseId, sender⟩ hr (rfl : caseId = e.caseId)
    cases sender with
    | run j =>
      have hbasis := hQ.basis_eq hT hold (run_mem_actors hr rfl)
        (hcase.trans (hQ.queuedBy _ hr j rfl))
      exact hQ.unparked _ hr j rfl old hold hbasis
    | pass q =>
      obtain ⟨e₀, he₀, hcase₀, hreleases⟩ := hQ.released _ hr q rfl
      obtain rfl : e₀ = old := List.inj_on_of_nodup_map hQ.keys he₀ hold (hcase₀.trans hcase.symm)
      have hreleases := hreleases hparked
      obtain rfl := hQ.eq_of_releases hdry hne hreleases
      exact hworking _ hreleases
  · intro j hj
    cases hj
  · obtain rfl : p = q := Option.some.inj hq
    refine ⟨?_, old, hold, hcase⟩
    rw [show (s.setPass p (.marking { e with status := .released } es)).passes p =
      .marking { e with status := .released } es by simp [CaseRuns.setPass], releases_marking]
    exact ⟨rfl, rfl⟩

theorem queue_marks (hQ : s.Queue c) (hC : Orderly c s (.marks p))
    (h : s.step c (.marks p) = some t) : t.Queue c := by
  simp only [step, passMarks] at h
  split at h
  swap
  · cases h
  next e es hphase =>
  obtain rfl := Option.some.inj h
  have hmarks := hC e (by rw [hphase]; exact rfl)
  have hdry : (c.pass p).release.dryRun = false := by
    by_contra hdry
    have hnone := hQ.dry p (by simpa using hdry)
    rw [hphase] at hnone
    cases hnone
  split
  · exact hQ.mark hphase hdry
  next hunmarked =>
  have hhand : (s.passes p).inHand = e :: es := by rw [hphase]; rfl
  have hnodup := hQ.nodup p hdry
  have hstores := hQ.stores p hdry
  rw [hhand] at hnodup hstores
  refine hQ.setPass (fun caseId hreleases => ?_) (fun _ => rfl) fun _ =>
    ⟨(List.nodup_cons.1 hnodup).2, fun e' he' => hstores e' (List.mem_cons_of_mem _ he'), ?_⟩
  · rw [hphase, releases_marking] at hreleases
    exact absurd (hmarks hreleases.2) hunmarked
  · intro _ q hqp hq
    by_contra hne'
    refine hqp (hQ.onePass q p hq hdry hne' ?_)
    rw [hhand]
    exact List.cons_ne_nil _ _

/-- What neither replays nor parks, and is no pass's, leaves the queue alone. -/
theorem Queue.of_step (hQ : s.Queue c) {a : CaseAct ι κ R} (h : s.step c a = some t)
    (ha : ¬ a.OfQueue) : t.Queue c := by
  have hrun : ∀ i p, (s.setRun i p).Queue c := fun i p => hQ.of_eq rfl rfl rfl
  have hconsumer : ∀ i p, (s.setConsumer i p).Queue c := fun i p => hQ.of_eq rfl rfl rfl
  cases a with
  | checks i reads =>
    simp only [step] at h
    split at h <;> cases h
    exact hrun i _
  | readsClaim i reads | skips i | finishes i f check | timesOut i =>
    obtain ⟨-, ⟨⟩⟩ := Option.ite_none_right_eq_some.1 h
    exact hrun i _
  | guards i reads =>
    simp only [step] at h
    split at h <;> cases h
    exact hrun i _
  | saves i ok =>
    simp only [step, runSaves] at h
    split at h
    · split at h <;> cases h
      · exact hQ.of_eq rfl rfl rfl
      · exact hrun i _
    · cases h
  | claims caseId delivery =>
    cases h
    exact hQ.of_eq rfl rfl rfl
  | consumerTimesOut i =>
    obtain ⟨-, ⟨⟩⟩ := Option.ite_none_right_eq_some.1 h
    exact hconsumer i _
  | consumerSaves i ok =>
    simp only [step, CaseRuns.consumerSaves] at h
    split at h <;> cases h
    · exact hQ.of_eq rfl rfl rfl
    · exact hQ.of_eq rfl rfl rfl
    · exact hconsumer i _
    · exact hconsumer i _
  | replays i queues | parks i store now | lists p | examines p | marks p => exact absurd trivial ha

theorem turns_examines (hT : ∀ j, s.Turn c j) (h : s.step c (.examines p) = some t) :
    ∀ j, t.Turn c j := by
  simp only [step, passExamines] at h
  split at h
  swap
  · cases h
  next e es hphase =>
  split at h
  · obtain rfl := Option.some.inj h
    exact turns_of_pass hT rfl rfl rfl rfl rfl
  · obtain rfl := Option.some.inj h
    refine turns_of_pass hT rfl rfl rfl rfl ?_
    -- What a pass queues is no run's.
    simp only [actors]
    split
    · simp [Sender.run?, CaseRuns.setPass]
    · rfl

theorem turns_marks (hT : ∀ j, s.Turn c j) (hQ : s.Queue c)
    (h : s.step c (.marks p) = some t) : ∀ j, t.Turn c j := by
  simp only [step, passMarks] at h
  split at h
  swap
  · cases h
  next e es hphase =>
  obtain rfl := Option.some.inj h
  refine turns_of_pass hT rfl rfl rfl rfl ?_
  split
  swap
  · rfl
  have hdry : (c.pass p).release.dryRun = false := by
    by_contra hdry
    have hnone := hQ.dry p (by simpa using hdry)
    rw [hphase] at hnone
    cases hnone
  have hstores := hQ.stores p hdry e (by rw [hphase]; exact List.mem_cons_self ..)
  have hmap : (s.entries.map (overwrite e)).map Entry.basis = s.entries.map Entry.basis := by
    rw [List.map_map]
    exact List.map_congr_left (hQ.overwrite_basis hstores)
  exact congrArg (s.queued.filterMap (·.sender.run?) ++ ·) hmap

/-- **One step.** -/
theorem turns_step (hI : (∀ j, s.Turn c j) ∧ s.Queue c) {a : CaseAct ι κ R} (hC : Orderly c s a)
    (h : s.step c a = some t) : (∀ j, t.Turn c j) ∧ t.Queue c := by
  obtain ⟨hT, hQ⟩ := hI
  cases a with
  | checks i reads => exact ⟨turns_checks hT hC h, hQ.of_step h id⟩
  | readsClaim i reads => exact ⟨turns_readsClaim hT hC h, hQ.of_step h id⟩
  | skips i => exact ⟨turns_skips hT h, hQ.of_step h id⟩
  | finishes i f check => exact ⟨turns_finishes hT hC h, hQ.of_step h id⟩
  | timesOut i => exact ⟨turns_timesOut hT h, hQ.of_step h id⟩
  | replays i queues =>
    have hT' := turns_replays hT h
    exact ⟨hT', queue_replays hT hT' hQ h⟩
  | parks i store now => exact ⟨turns_parks hT h, queue_parks hT hQ h⟩
  | guards i reads => exact ⟨turns_guards hT h, hQ.of_step h id⟩
  | saves i ok => exact ⟨turns_runSaves hT hC h, hQ.of_step h id⟩
  | claims caseId delivery => exact ⟨turns_claims hT hC h, hQ.of_step h id⟩
  | consumerTimesOut i =>
    refine ⟨?_, hQ.of_step h id⟩
    obtain ⟨hphase, ⟨⟩⟩ := Option.ite_none_right_eq_some.1 h
    exact turns_setConsumer hT (by simp [hphase, ConsumerPhase.Wrote])
  | consumerSaves i ok => exact ⟨turns_consumerSaves hT hC h, hQ.of_step h id⟩
  | lists p =>
    refine ⟨?_, queue_lists hQ hC h⟩
    obtain ⟨-, ⟨⟩⟩ := Option.ite_none_right_eq_some.1 h
    exact turns_of_pass hT rfl rfl rfl rfl rfl
  | examines p => exact ⟨turns_examines hT h, queue_examines hT hQ h⟩
  | marks p => exact ⟨turns_marks hT hQ h, queue_marks hQ hC h⟩

/-- **A case is replayed at most once, and a discarded run has neither queued a replay nor parked
its packet**, in every orderly run of the system. -/
theorem replayed_once (hs : (caseRuns c).Reach (Orderly c) s) :
    (s.queued.map QueuedReplay.caseId).Nodup ∧ ∀ i, s.runs i = .discarded → i ∉ s.actors := by
  have hI : (∀ j, s.Turn c j) ∧ s.Queue c :=
    hs.invariant (I := fun s => (∀ j, s.Turn c j) ∧ s.Queue c)
      (fun s h => ⟨turn_fresh h, queue_fresh h⟩) fun s a t hI hC h => turns_step hI hC h
  refine ⟨hI.2.once, fun i hi => (hI.1 i).not_mem ?_⟩
  rw [hi]
  exact id

end Steps

section Decidable

variable [DecidableEq ι] [Fintype ι] [DecidableEq κ] [Fintype κ]

omit [LinearOrder R] in
instance (i : ι) : Decidable (c.OneRecord i) :=
  inferInstanceAs (Decidable (∀ j, c.caseId j = c.caseId i → c.key j = c.key i))

omit [LinearOrder R] in
instance (s : CaseRuns ι κ R) (i : ι) : Decidable (c.Alone s i) :=
  inferInstanceAs (Decidable (_ → ∀ j, j ≠ i → c.key j = c.key i → ¬ (s.runs j).Open))

instance (s : CaseRuns ι κ R) (i : ι) : Decidable (c.Awaits s i) :=
  match h : s.runs i with
  | .replaying f check | .parking f check =>
    decidable_of_iff (c.acts i f check = true) (by simp [CaseConfig.Awaits, h])
  | .guarding _ _ => decidable_of_iff (i ∈ s.actors) (by simp [CaseConfig.Awaits, h])
  | .checking _ | .readingClaim | .analysing | .saving .. | .discarded | .ended =>
    .isFalse (by simp [CaseConfig.Awaits, h])

instance (s : CaseRuns ι κ R) : DecidablePred (Orderly c s)
  | .checks i reads => inferInstanceAs (Decidable (∀ file ∈ (s.runs i).toCheck,
      (s.terminalIn (c.key i) file true ≠ none → reads = true) ∧ (file = .casebook → c.Alone s i)))
  | .readsClaim _ _ => inferInstanceAs (Decidable (_ ∨ _ ∧ _))
  | .finishes i f check => inferInstanceAs (Decidable (c.acts i f check = true →
      ∀ j, c.key j = c.key i → ¬ (s.consumers j).Wrote))
  | .saves i ok => inferInstanceAs (Decidable (i ∈ s.actors → ∀ x ∈ (s.runs i).toSave,
      x.1 = .casebook → ok = true))
  | .claims caseId delivery => inferInstanceAs (Decidable (∀ i, c.caseId i = caseId →
      (s.runs i).LetThrough ∨ i ∈ s.actors →
        c.OneRecord i ∨ (c.request i).record.delivery = delivery))
  | .consumerSaves i ok => inferInstanceAs (Decidable (ok = true →
      ∀ j, c.key j = c.key i → ¬ c.Awaits s j))
  | .lists p => inferInstanceAs (Decidable ((c.pass p).release.dryRun = false →
      ∀ q, q ≠ p → (c.pass q).release.dryRun = false → (s.passes q).inHand = []))
  | .marks p => inferInstanceAs (Decidable (∀ e ∈ (s.passes p).toMark, e.status = .released →
      (c.pass p).release.marks e.caseId = true))
  | .skips _ | .timesOut _ | .replays .. | .parks .. | .guards .. | .consumerTimesOut _
  | .examines _ => .isTrue trivial

end Decidable

/-! ## Runs of two cases -/

def recorded (records : ι → String) : CaseConfig ι Unit ℤ where
  digest := id
  request i := {
    record := ⟨(records i).toList, some "ref-1".toList⟩
    replay := ⟨true, [.redriveAfterRecovery], some 1, false, true⟩
    park := ⟨true, 10, 0, none⟩ }
  pass _ := {
    release := {
      cfg := ⟨true, 10, 0, none⟩
      running := [.text "1.0.1".toList]
      now := 2
      dryRun := false
      queues _ := true
      marks _ := true }
    lists := true
    reads _ := true }

def unread : CaseRuns ι Unit ℤ where
  files _ := ⟨none, none⟩
  holder _ := some "ref-1".toList
  runs _ := .checking .status
  consumers _ := .waiting
  passes _ := .waiting
  entries := []
  queued := []

theorem unread_fresh : (unread : CaseRuns ι Unit ℤ).Fresh :=
  ⟨fun _ => rfl, fun _ => rfl, fun _ => rfl, rfl, rfl⟩

def toRedrive (confidence : ℤ) : Finding ℤ where
  action := .redriveAfterRecovery
  confidence := some (some confidence)

def letThrough (i : ι) : List (CaseAct ι Unit ℤ) :=
  [.checks i true, .checks i true, .readsClaim i true]

def endsWith (i : ι) (confidence : ℤ) (check : CodeCheck) : List (CaseAct ι Unit ℤ) :=
  [.finishes i (toRedrive confidence) check, .replays i true, .parks i ⟨true, true, true⟩ 1]

def givesUp (i : ι) : List (CaseAct ι Unit ℤ) :=
  [.consumerTimesOut i, .consumerSaves i true, .consumerSaves i true]

def unchecked : CodeCheck where
  verdict := .unknown
  reason := .off

def awaits101 : CodeCheck where
  verdict := .notDeployed
  reason := .behind "release".toList "1.0.0".toList "1.0.1".toList
  evidence := { requiredVersion := some "1.0.1".toList }

/-- One case is parked, comes again and is not analysed, and is released; on another the consumer
gives up, and its finding, which was not worth a replay, is discarded. -/
theorem replayed_once_parked : ∃ s : CaseRuns (Fin 3) Unit ℤ,
    s.queued = [⟨"dlt-0".toList, .pass ()⟩] ∧ s.runs 1 = .discarded ∧ s.runs 2 = .ended ∧
    (s.queued.map QueuedReplay.caseId).Nodup ∧ ∀ i, s.runs i = .discarded → i ∉ s.actors := by
  let c := recorded fun i : Fin 3 => if i = 1 then "dlt-1" else "dlt-0"
  obtain ⟨s, hs, hp⟩ := (caseRuns c).exists_reach_runWhere (C := Orderly c)
    (c := fun s a => decide (Orderly c s a)) (fun s a h => of_decide_eq_true h) unread_fresh
    (letThrough 0 ++ letThrough 1 ++ endsWith 0 1 awaits101 ++ givesUp 1 ++
      endsWith 1 0 unchecked ++ [.guards 0 true, .guards 0 true, .saves 0 true, .checks 2 true,
        .checks 2 true, .saves 0 true, .guards 1 true, .lists (), .examines (), .marks ()])
    (fun s => decide (s.queued = [⟨"dlt-0".toList, .pass ()⟩] ∧ s.runs 1 = .discarded ∧
      s.runs 2 = .ended)) (by decide)
  obtain ⟨hqueued, hdiscarded, hended⟩ := of_decide_eq_true hp
  exact ⟨s, hqueued, hdiscarded, hended, replayed_once hs⟩

/-- A redelivery is let through beside the first run, and the consumer gives up: both runs queue a
replay, and both are discarded. -/
theorem replayed_and_discarded : ∃ s : CaseRuns (Fin 2) Unit ℤ,
    (caseRuns (recorded fun _ => "dlt-0")).Reachable s ∧
    ¬ (s.queued.map QueuedReplay.caseId).Nodup ∧ s.runs 0 = .discarded ∧ 0 ∈ s.actors := by
  obtain ⟨s, hs, hp⟩ := (caseRuns (recorded fun _ : Fin 2 => "dlt-0")).exists_reachable_run
    unread_fresh (letThrough 0 ++ letThrough 1 ++ givesUp 0 ++ endsWith 0 1 unchecked ++
      endsWith 1 1 unchecked ++ [.guards 0 true, .guards 1 true])
    (fun s => decide (s.queued.map QueuedReplay.caseId = ["dlt-0".toList, "dlt-0".toList] ∧
      s.runs 0 = .discarded ∧ 0 ∈ s.actors)) (by decide)
  obtain ⟨hqueued, hdiscarded, hacted⟩ := of_decide_eq_true hp
  refine ⟨s, hs, ?_, hdiscarded, hacted⟩
  rw [hqueued]
  decide

end CaseRuns

end ResidentCrm.Dlt
