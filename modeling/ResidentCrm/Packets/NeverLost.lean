import ResidentCrm.Packets.Kept

/-!
# A packet abandoned at shutdown

A run within the condition loses no packet, and one that trusts no `FAILED_SHUTDOWN` dismisses none
(`never_lost`). The redelivery a shutdown counts on is skipped on the very casebook it wrote
(`abandoned_and_skipped`).
-/

namespace ResidentCrm

namespace Packets

open Storage

/-! ## Dismissals -/

section

variable {ρ : Type*} {files : Files Status} {p p' : RoutePhase} {e : Effect ρ}

theorem load_of_found_terminal {f : File} {v : Status} (hv : v.Terminal) :
    files.load f = some v ↔ found files f = .terminal v := by
  constructor
  · intro h
    unfold found
    rw [h, Option.filter_some_pos (by simpa using hv)]
  · intro h
    exact (load_of_found h).1

/-- An answer on a status dismisses the packet where it is `FAILED_SHUTDOWN`. -/
theorem answer_ne_dismisses {f : File} {v : Status} (h : found files f = .terminal v) :
    (RoutePhase.answer v).2 ≠ (.dismisses : Effect ρ) ↔ files.load f ≠ some .failedShutdown := by
  rw [ne_eq, ne_eq, (load_of_found h).1, Option.some.injEq, not_iff_not]
  unfold RoutePhase.answer
  dsimp only
  split <;> simp [*]

theorem ne_failedShutdown {f : File} (h : ∀ v, found files f ≠ .terminal v) :
    files.load f ≠ some .failedShutdown :=
  fun hload => h _ ((load_of_found_terminal (by decide)).1 hload)

/-- A check dismisses the packet where it trusts a `FAILED_SHUTDOWN`. -/
theorem reads_ne_dismisses (h : p.reads files = some (p', e)) :
    e ≠ .dismisses ↔ ∀ f ∈ p.trusts, files.load f ≠ some .failedShutdown := by
  cases p with
  | fetchReads f | awaiting f =>
    simp only [RoutePhase.trusts, Option.mem_some_iff, forall_eq']
    simp only [RoutePhase.reads] at h
    split at h <;> obtain ⟨rfl, rfl⟩ := Prod.mk.inj (Option.some.inj h)
    · next v hfound => exact answer_ne_dismisses hfound
    · next hfound => exact iff_of_true (by rintro ⟨⟩) (ne_failedShutdown (by simp [hfound]))
    · next hfound => exact iff_of_true (by rintro ⟨⟩) (ne_failedShutdown (by simp [hfound]))
  | fetchLoads | opening | claimReads f | guards f v =>
    simp only [RoutePhase.reads] at h
    split at h <;> obtain ⟨rfl, rfl⟩ := Prod.mk.inj (Option.some.inj h) <;>
      exact iff_of_true (by rintro ⟨⟩) (by rintro f ⟨⟩)
  | _ => cases h

theorem step_ne_dismisses {a : RouteAct ρ} (ha : a ≠ .reads) (h : p.step files a = some (p', e)) :
    e ≠ .dismisses := by
  rintro rfl
  cases a with
  | reads => exact ha rfl
  | proceeds ok =>
    cases p with
    | savingCasebook w =>
      simp only [RoutePhase.step, RoutePhase.proceeds, Option.some.injEq] at h
      split at h <;> cases h
    | _ => cases ok <;> cases h
  | queues id ok => cases ok <;> simp [RoutePhase.step] at h
  | claims won => cases p <;> simp [RoutePhase.step] at h
  | readsStub _ | graphReturns _ | graphTimesOut | graphRaises | givesUp | dies =>
    simp [RoutePhase.step] at h

theorem dismisses_iff {a : RouteAct ρ} (h : p.step files a = some (p', e)) :
    e ≠ .dismisses ↔ (a = .reads → ∀ f ∈ p.trusts, files.load f ≠ some .failedShutdown) := by
  by_cases ha : a = .reads
  · subst ha
    rw [reads_ne_dismisses h]
    simp only [true_imp_iff]
  · exact iff_of_true (step_ne_dismisses ha h) fun h => absurd h ha

end

namespace Packet

variable {ι δ ρ : Type*} {s t : Packet ι δ ρ}

theorem trusting_consumes {i : ι} {a : ListenerAct} {d : Delivery ρ}
    (hd : s.deliveries i = some d) : s.Trusting (.consumes i a) ↔
      ∀ ok, a = .decides ok → ok = true → d.listener = .deciding →
        s.files.casebook ≠ some .failedShutdown := by
  cases a with
  | decides ok => cases ok <;> simp [Trusting, hd]
  | hears | timesOut | saves _ | publishes _ | dies => simp [Trusting]

theorem trusting_routes {i : ι} {a : RouteAct ρ} {d : Delivery ρ}
    (hd : s.deliveries i = some d) : s.Trusting (.routes i a) ↔
      (a = .reads → ∀ f ∈ d.route.trusts, s.files.load f ≠ some .failedShutdown) := by
  cases a with
  | reads => simp [Trusting, hd]
  | proceeds _ | queues _ _ | readsStub _ | claims _ | graphReturns _ | graphTimesOut | graphRaises
  | givesUp | dies => simp [Trusting]

theorem dismissed_perform [DecidableEq ρ] {e : Effect ρ} :
    (s.perform e).dismissed = false ↔ s.dismissed = false ∧ e ≠ .dismisses := by
  cases e <;> simp [perform, setMessage]

/-- A consumer dismisses the packet where it skips it on `FAILED_SHUTDOWN`. -/
theorem dismissed_decides [DecidableEq ι] [DecidableEq ρ] {i : ι} {d : Delivery ρ} {ok : Bool} :
    (s.decides i d ok).dismissed = false ↔ s.dismissed = false ∧
      (ok = true → s.files.casebook ≠ some .failedShutdown) := by
  unfold decides
  split
  · next hok => exact (and_iff_left fun h => absurd h (by simp [hok])).symm
  next hok =>
  split
  · simp [hok]
  · next hskips =>
    refine (and_iff_left fun _ hcasebook => hskips ?_).symm
    rw [skips, hcasebook]
    decide

theorem dismissed_consumes [DecidableEq ι] [DecidableEq ρ] {i : ι} {d : Delivery ρ}
    {a : ListenerAct} (h : s.consumes i d a = some t) : t.dismissed = false ↔
      s.dismissed = false ∧ ∀ ok, a = .decides ok → ok = true → d.listener = .deciding →
        s.files.casebook ≠ some .failedShutdown := by
  cases a with
  | decides ok =>
    simp only [consumes] at h
    split at h
    · next hdeciding =>
      obtain rfl := Option.some.inj h
      simp [dismissed_decides, hdeciding]
    · cases h
  | hears =>
    simp only [consumes] at h
    split at h
    · split at h <;> cases h <;> exact (and_iff_left (by rintro ok ⟨⟩)).symm
    · cases h
  | timesOut =>
    simp only [consumes] at h
    split at h <;> cases h
    exact (and_iff_left (by rintro ok ⟨⟩)).symm
  | saves ok =>
    simp only [consumes] at h
    split at h
    · split at h <;> cases h <;> exact (and_iff_left (by rintro ok ⟨⟩)).symm
    · cases ok <;> cases h <;> exact (and_iff_left (by rintro ok ⟨⟩)).symm
    · cases h
  | publishes ok =>
    simp only [consumes] at h
    split at h
    · cases ok <;> cases h <;> exact (and_iff_left (by rintro ok ⟨⟩)).symm
    · cases h
  | dies =>
    cases h
    exact (and_iff_left (by rintro ok ⟨⟩)).symm

variable [DecidableEq ι] [DecidableEq δ] [DecidableEq ρ]

/-- A step dismisses the packet exactly where it is not `Trusting`. -/
theorem dismissed_step {a : PacketAction ι δ ρ} (h : s.step a = some t) :
    t.dismissed = false ↔ s.dismissed = false ∧ s.Trusting a := by
  cases a with
  | produced id =>
    simp only [step] at h
    split at h <;> cases h
    exact (and_iff_left trivial).symm
  | delivered i m =>
    simp only [step] at h
    split at h <;> cases h
    exact (and_iff_left trivial).symm
  | consumes i a =>
    obtain ⟨d, hd, h⟩ := Option.bind_eq_some_iff.1 h
    rw [dismissed_consumes h, trusting_consumes hd]
  | routes i a =>
    simp only [step] at h
    split at h
    · obtain ⟨d, hd, h⟩ := Option.bind_eq_some_iff.1 h
      obtain ⟨⟨p, e⟩, hstep, rfl⟩ := Option.map_eq_some_iff.1 h
      rw [trusting_routes hd, ← dismisses_iff hstep]
      exact dismissed_perform
    · cases h
  | drainStarts d i =>
    simp only [step] at h
    split at h <;> cases h
    exact (and_iff_left trivial).symm
  | drainReads d =>
    simp only [step, drainReads] at h
    split at h
    · split at h <;> cases h <;> exact (and_iff_left trivial).symm
    · cases h
  | drainSaves d ok =>
    simp only [step, drainSaves] at h
    split at h
    · cases ok <;> cases h <;> exact (and_iff_left trivial).symm
    · cases ok <;> cases h <;> exact (and_iff_left trivial).symm
    · cases h

/-! ## Runs -/

/-- **A packet abandoned at shutdown is not lost**: no delivery is skipped or answered on a
`FAILED_SHUTDOWN` exactly where all steps are `Trusting`, and where all are `Within` an acknowledged
packet has a final outcome or is in the DLQ. -/
theorem never_lost {acts : List (PacketAction ι δ ρ)} (hs : (machine ι δ ρ).start s)
    (h : (machine ι δ ρ).run s acts = some t) :
    (t.dismissed = false ↔ (machine ι δ ρ).Meets Trusting s acts) ∧
      ((machine ι δ ρ).Meets Within s acts → t.Acknowledged → t.Kept) := by
  constructor
  · have hdismissed : s.dismissed = false := hs.2.2.2.2
    rw [Machine.keeps_iff_meets (I := fun _ => True) (P := fun s => s.dismissed = false)
      (fun _ _ _ _ _ => trivial) (fun s a t _ => dismissed_step) trivial h]
    simp only [hdismissed, true_and]
  · intro hmeets hacknowledged
    have hreach : (machine ι δ ρ).Reach Within t := Machine.Reach.of_meets (.start hs) h hmeets
    have hinv : t.Inv := hreach.invariant (fun s => inv_published)
      fun s a t hI hw hstep => hI.step hw hstep
    exact hinv.kept_of_acknowledged hacknowledged

/-! ## A shutdown -/

def published : Packet ℕ Unit Unit where
  files := ⟨none, none⟩
  deadLettered := false
  messages m := if m.lane = .fast then .pending else .unsent
  deliveries _ := none
  drains _ := .idle
  dismissed := false

theorem published_start : (machine ℕ Unit Unit).start published :=
  ⟨rfl, rfl, ⟨⟨.fast, ()⟩, rfl⟩, fun _ => rfl, rfl⟩

/-- The packet is fetched, and its analysis is running when a shutdown abandons it. -/
def abandonment : List (PacketAction ℕ Unit Unit) :=
  [.delivered 0 ⟨.fast, ()⟩, .consumes 0 (.decides true), .routes 0 .reads, .routes 0 .reads,
    .routes 0 (.proceeds true), .routes 0 .reads, .routes 0 (.proceeds true),
    .routes 0 (.queues () true), .consumes 0 .hears,
    .delivered 1 ⟨.slow, ()⟩, .consumes 1 (.decides true), .routes 1 .reads,
    .routes 1 (.readsStub false), .routes 1 (.claims true), .routes 1 (.proceeds true),
    .drainStarts () 1, .drainReads (), .drainReads (), .drainSaves () true, .drainSaves () true]

def quiet (s : Packet ℕ Unit Unit) : Bool :=
  s.messages ⟨.fast, ()⟩ ≠ .pending && s.messages ⟨.slow, ()⟩ ≠ .pending

theorem acknowledged_of_quiet {s : Packet ℕ Unit Unit} (h : quiet s = true) : s.Acknowledged := by
  obtain ⟨hfast, hslow⟩ : s.messages ⟨.fast, ()⟩ ≠ .pending ∧ s.messages ⟨.slow, ()⟩ ≠ .pending := by
    simpa [quiet] using h
  rintro ⟨lane, -⟩
  cases lane with
  | fast => exact hfast
  | slow => exact hslow

/-- The abandoned run outlives the shutdown, and its verdict is recorded and acknowledged. -/
def outlived : List (PacketAction ℕ Unit Unit) :=
  abandonment ++ [.routes 1 (.graphReturns .rejected), .routes 1 .reads,
    .routes 1 (.proceeds true), .routes 1 (.proceeds true), .consumes 1 .hears]

theorem never_lost_outlived : ∃ t : Packet ℕ Unit Unit, t.Acknowledged ∧
    (machine ℕ Unit Unit).Meets Within published outlived ∧
    (t.dismissed = false ↔ (machine ℕ Unit Unit).Meets Trusting published outlived) ∧
      ((machine ℕ Unit Unit).Meets Within published outlived → t.Acknowledged → t.Kept) := by
  obtain ⟨t, ht, hquiet⟩ := Option.map_eq_some_iff.1
    (by decide : ((machine ℕ Unit Unit).run published outlived).map quiet = some true)
  exact ⟨t, acknowledged_of_quiet hquiet, by decide, never_lost published_start ht⟩

/-- The run and the consumer die with the shutdown, and the redelivery is skipped. -/
theorem abandoned_and_skipped : ∃ t : Packet ℕ Unit Unit, (machine ℕ Unit Unit).Reachable t ∧
    t.Acknowledged ∧ t.dismissed = true ∧ t.files.casebook = some .failedShutdown ∧
      ¬ t.Kept := by
  obtain ⟨t, ht, hp⟩ := (machine ℕ Unit Unit).exists_reachable_run published_start
    (abandonment ++ [.routes 1 .dies, .consumes 1 .dies, .delivered 2 ⟨.slow, ()⟩,
      .consumes 2 (.decides true)])
    (fun t => quiet t && t.dismissed && t.files.casebook = some .failedShutdown &&
      !t.deadLettered) (by decide)
  simp only [Bool.and_eq_true, decide_eq_true_eq, Bool.not_eq_true'] at hp
  obtain ⟨⟨⟨hquiet, hdismissed⟩, hcasebook⟩, hdlq⟩ := hp
  refine ⟨t, ht, acknowledged_of_quiet hquiet, hdismissed, hcasebook, ?_⟩
  rintro (⟨v, hv, hfinal⟩ | hdeadLettered)
  · obtain rfl : v = .failedShutdown := Option.some.inj (hv.symm.trans hcasebook)
    exact hfinal.2 rfl
  · rw [hdlq] at hdeadLettered
    cases hdeadLettered

end Packet

end Packets

end ResidentCrm
