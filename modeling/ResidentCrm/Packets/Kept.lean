import ResidentCrm.Packets.Shutdown

/-!
# What keeps a packet

A packet is kept once its casebook carries a final status (a terminal one other than
`FAILED_SHUTDOWN`) or it is in the DLQ; until then a message of it has to be pending (`Inv`). Every
write keeps this but one, and every answer rests on it but those given on a `FAILED_SHUTDOWN` that
was read (`Trusting`); the exception among the writes is a shutdown's, over a verdict recorded since
it looked (`Within`).
-/

namespace ResidentCrm

namespace Packets

open Storage

/-- A terminal status other than `FAILED_SHUTDOWN`. -/
abbrev Final (v : Status) : Prop := v.Terminal ∧ v ≠ .failedShutdown

theorem final_of_not_redeliverable {v : Status} (h : v.Terminal) (h' : ¬ v.Redeliverable) :
    Final v := by
  refine ⟨h, ?_⟩
  rintro rfl
  exact h' (by decide)

theorem final_of_protected {v : Status} (h : v.Protected) : Final v := by
  revert h
  cases v <;> decide

theorem final_of_checked {w : Way} (h : w.Checked) : Final w.writes := by
  cases w with
  | finish v =>
    revert h
    cases v <;> decide
  | timeout | failed => decide

theorem load_of_found {files : Files Status} {f : File} {v : Status}
    (h : found files f = .terminal v) : files.load f = some v ∧ v.Terminal := by
  unfold found at h
  split at h
  · next x hx =>
    obtain rfl : x = v := by simpa using h
    simpa using Option.filter_eq_some_iff.1 hx
  · cases h
  · cases h

namespace Packet

variable {ι δ ρ : Type*}

/-- The recorded outcome is final. -/
def Recorded (s : Packet ι δ ρ) : Prop := ∃ v ∈ s.files.casebook, Final v

/-- The packet has an outcome, or is in the DLQ. -/
def Kept (s : Packet ι δ ρ) : Prop := s.Recorded ∨ s.deadLettered = true

/-- The packet is kept, or waits on the analysis queue. -/
def Queued (s : Packet ι δ ρ) : Prop :=
  s.Kept ∨ ∃ id, s.messages ⟨.slow, id⟩ = .pending

/-- Every delivery of the packet has been acknowledged: no message is pending. -/
def Acknowledged (s : Packet ι δ ρ) : Prop := ∀ m, s.messages m ≠ .pending

/-- No consumer skips, and no request answers, on a `FAILED_SHUTDOWN` it reads. -/
def Trusting (s : Packet ι δ ρ) : PacketAction ι δ ρ → Prop
  | .consumes i (.decides true) => ∀ d ∈ s.deliveries i, d.listener = .deciding →
      s.files.casebook ≠ some .failedShutdown
  | .routes i .reads => ∀ d ∈ s.deliveries i, ∀ f ∈ d.route.trusts,
      s.files.load f ≠ some .failedShutdown
  | _ => True

/-- And no shutdown saves its casebook over a final one, recorded since it looked. -/
def Within (s : Packet ι δ ρ) (a : PacketAction ι δ ρ) : Prop :=
  s.Trusting a ∧ ∀ d, a = .drainSaves d true → s.drains d = .savesCasebook → ¬ s.Recorded

instance decidableRecorded (s : Packet ι δ ρ) : Decidable s.Recorded :=
  inferInstanceAs (Decidable (∃ v ∈ s.files.casebook, Final v))

instance decidableTrusting (s : Packet ι δ ρ) : ∀ a, Decidable (s.Trusting a)
  | .consumes i (.decides true) => inferInstanceAs (Decidable (∀ d ∈ s.deliveries i,
      d.listener = .deciding → s.files.casebook ≠ some .failedShutdown))
  | .routes i .reads => inferInstanceAs (Decidable (∀ d ∈ s.deliveries i,
      ∀ f ∈ d.route.trusts, s.files.load f ≠ some .failedShutdown))
  | .consumes _ (.decides false) | .consumes _ .hears | .consumes _ .timesOut
  | .consumes _ (.saves _) | .consumes _ (.publishes _) | .consumes _ .dies
  | .routes _ (.proceeds _) | .routes _ (.queues _ _) | .routes _ (.readsStub _)
  | .routes _ (.claims _) | .routes _ (.graphReturns _) | .routes _ .graphTimesOut
  | .routes _ .graphRaises | .routes _ .givesUp | .routes _ .dies
  | .produced _ | .delivered _ _ | .drainStarts _ _ | .drainReads _ | .drainSaves _ _ =>
    .isTrue trivial

/-- Whether a shutdown saves its casebook over a final one. -/
def overwrites (s : Packet ι δ ρ) : PacketAction ι δ ρ → Bool
  | .drainSaves d true => decide (s.drains d = .savesCasebook) && decide s.Recorded
  | _ => false

theorem overwrites_eq_false_iff {s : Packet ι δ ρ} {a : PacketAction ι δ ρ} :
    s.overwrites a = false ↔
      ∀ d, a = .drainSaves d true → s.drains d = .savesCasebook → ¬ s.Recorded := by
  unfold overwrites
  split
  · simp
  · next hne => exact ⟨fun _ d ha => absurd ha (hne d), fun _ => rfl⟩

instance decidableWithin (s : Packet ι δ ρ) (a : PacketAction ι δ ρ) : Decidable (s.Within a) :=
  decidable_of_iff (s.Trusting a ∧ s.overwrites a = false) (and_congr_right' overwrites_eq_false_iff)

/-! ## What a write keeps -/

/-- What is kept or queued in `s` is in `t`. -/
structure Improves (s t : Packet ι δ ρ) : Prop where
  recorded : s.Recorded → t.Recorded
  kept : s.Kept → t.Kept
  queued : s.Queued → t.Queued

/-- An effect that costs no outcome: a casebook is saved final or over none that is, a final
`status.json` follows its casebook, and what is queued is new. -/
def Sound (s : Packet ι δ ρ) : Effect ρ → Prop
  | .saves .casebook v => Final v ∨ ¬ s.Recorded
  | .saves .status v => Final v → s.Recorded
  | .queues id => s.messages ⟨.slow, id⟩ = .unsent
  | .idle | .deadLetters | .dismisses => True

theorem improves_of_recorded {s t : Packet ι δ ρ} (hr : s.Recorded → t.Recorded)
    (hd : s.deadLettered = true → t.deadLettered = true)
    (hm : ∀ id, s.messages ⟨.slow, id⟩ = .pending → t.messages ⟨.slow, id⟩ = .pending) :
    s.Improves t where
  recorded := hr
  kept := Or.imp hr hd
  queued := Or.imp (Or.imp hr hd) fun ⟨id, hid⟩ => ⟨id, hm id hid⟩

/-! ## The invariant -/

/-- What has to hold of the packet at each point of a request. -/
def GroundedRoute (s : Packet ι δ ρ) (lane : Lane) : RoutePhase → Prop
  | .fetchReads _ | .fetching | .fetchLoads | .fetchMarks | .fetchQueues => lane = .fast
  | .savingStatus _ | .timedOut => s.Recorded
  | .answered => s.Queued ∧ (lane = .slow → s.Kept)
  | _ => True

def Grounded (s : Packet ι δ ρ) (d : Delivery ρ) : Prop :=
  (d.listener = .savingStatus → s.Recorded) ∧ s.GroundedRoute d.message.lane d.route

structure Inv (s : Packet ι δ ρ) : Prop where
  pending : s.Kept ∨ ∃ m, s.messages m = .pending
  status : ∀ v ∈ s.files.status, Final v → s.Recorded
  deliveries : ∀ i, ∀ d ∈ s.deliveries i, s.Grounded d

variable {s t : Packet ι δ ρ}

theorem Recorded.kept (h : s.Recorded) : s.Kept := .inl h

theorem Kept.queued (h : s.Kept) : s.Queued := .inl h

/-- A request may answer once the packet is kept. -/
theorem Kept.answered (h : s.Kept) (lane : Lane) : s.GroundedRoute lane .answered :=
  ⟨h.queued, fun _ => h⟩

theorem GroundedRoute.mono {lane : Lane} {p : RoutePhase} (h : s.GroundedRoute lane p)
    (hst : s.Improves t) : t.GroundedRoute lane p := by
  cases p with
  | savingStatus w => exact hst.recorded h
  | timedOut => exact hst.recorded h
  | answered => exact ⟨hst.queued h.1, fun hlane => hst.kept (h.2 hlane)⟩
  | _ => exact h

theorem Grounded.mono {d : Delivery ρ} (h : s.Grounded d) (hst : s.Improves t) : t.Grounded d :=
  ⟨fun hd => hst.recorded (h.1 hd), h.2.mono hst⟩

theorem Inv.recorded_of_load (hI : s.Inv) {f : File} {v : Status} (h : s.files.load f = some v)
    (hv : Final v) : s.Recorded := by
  cases f with
  | casebook => exact ⟨v, h, hv⟩
  | status => exact hI.status v h hv

theorem Inv.recorded_of_found (hI : s.Inv) {f : File} {v : Status}
    (h : found s.files f = .terminal v) (hv : v ≠ .failedShutdown) : s.Recorded := by
  obtain ⟨hload, hterminal⟩ := load_of_found h
  exact hI.recorded_of_load hload ⟨hterminal, hv⟩

theorem Inv.setDelivery [DecidableEq ι] (hI : s.Inv) {i : ι} {d : Delivery ρ} (hd : s.Grounded d) :
    (s.setDelivery i d).Inv where
  pending := hI.pending
  status := hI.status
  deliveries := by
    intro j x hx
    by_cases hj : j = i
    · subst hj
      have : d = x := Option.some.inj ((Function.update_self j _ _).symm.trans hx)
      exact this ▸ hd
    · exact hI.deliveries j x ((Function.update_of_ne hj _ _).symm.trans hx)

theorem inv_published (hs : s.Published) : s.Inv := by
  obtain ⟨hfiles, -, hpending, hdeliveries, -⟩ := hs
  refine ⟨.inr hpending, fun v hv => ?_, fun i d hd => ?_⟩
  · rw [hfiles] at hv
    cases hv
  · rw [hdeliveries i] at hd
    cases hd

theorem Inv.kept_of_acknowledged (hI : s.Inv) (h : s.Acknowledged) : s.Kept := by
  rcases hI.pending with hkept | ⟨m, hm⟩
  · exact hkept
  · exact absurd hm (h m)

theorem Inv.dismiss (hI : s.Inv) (b : Bool) : Inv { s with dismissed := b } :=
  ⟨hI.pending, hI.status, hI.deliveries⟩

theorem Inv.setDrain [DecidableEq δ] (hI : s.Inv) {d : δ} {p : DrainPhase} : (s.setDrain d p).Inv :=
  ⟨hI.pending, hI.status, hI.deliveries⟩

section

variable [DecidableEq ρ]

theorem messages_setMessage {m m' : Message ρ} {x : MessageState} (h : m' ≠ m) :
    (s.setMessage m x).messages m' = s.messages m' :=
  Function.update_of_ne h _ _

theorem Sound.improves {e : Effect ρ} (he : s.Sound e) :
    s.Improves (s.perform e) := by
  cases e with
  | idle | dismisses => exact ⟨id, id, id⟩
  | deadLetters => exact improves_of_recorded id (fun _ => rfl) fun _ => id
  | saves f v =>
    refine improves_of_recorded (fun hr => ?_) id fun _ => id
    cases f with
    | casebook =>
      rcases he with he | he
      · exact ⟨v, rfl, he⟩
      · exact absurd hr he
    | status => exact hr
  | queues x =>
    refine improves_of_recorded id id fun id hid => ?_
    by_cases hx : (⟨.slow, id⟩ : Message ρ) = ⟨.slow, x⟩
    · rw [hx, (he : s.messages ⟨.slow, x⟩ = .unsent)] at hid
      cases hid
    · exact (messages_setMessage hx).trans hid

theorem Inv.perform (hI : s.Inv) {e : Effect ρ} (he : s.Sound e) : (s.perform e).Inv where
  pending := by
    rcases hI.pending with h | ⟨m, hm⟩
    · exact .inl (he.improves.kept h)
    · cases e with
      | queues x => exact .inr ⟨⟨.slow, x⟩, Function.update_self _ _ _⟩
      | _ => exact .inr ⟨m, hm⟩
  status := by
    intro v hv hfinal
    cases e with
    | saves f x =>
      cases f with
      | casebook => exact he.improves.recorded (hI.status v hv hfinal)
      | status =>
        obtain rfl : x = v := Option.some.inj hv
        exact he hfinal
    | _ => exact hI.status v hv hfinal
  deliveries := by
    intro i d hd
    have hd : d ∈ s.deliveries i := by
      cases e <;> exact hd
    exact (hI.deliveries i d hd).mono he.improves

/-- A delivery is done with where the packet is kept, or queued for analysis. -/
theorem Inv.settle [DecidableEq ι] (hI : s.Inv) {i : ι} {d : Delivery ρ} (hd : s.Grounded d)
    (hqueued : s.Queued) (hkept : d.message.lane = .slow → s.Kept) : (s.settle i d).Inv := by
  have hpending : ∀ id, d.message.lane = .fast → s.messages ⟨.slow, id⟩ = .pending →
      (s.setMessage d.message .handled).messages ⟨.slow, id⟩ = .pending := by
    intro id hlane hid
    have hne : (⟨.slow, id⟩ : Message ρ) ≠ d.message := by
      intro h
      rw [← h] at hlane
      cases hlane
    exact (messages_setMessage hne).trans hid
  have hqueued' : (s.setMessage d.message .handled).Queued := by
    cases hlane : d.message.lane with
    | fast => exact hqueued.imp id fun ⟨id, hid⟩ => ⟨id, hpending id hlane hid⟩
    | slow => exact .inl (hkept hlane)
  have himproves : s.Improves (s.setMessage d.message .handled) := ⟨id, id, fun _ => hqueued'⟩
  have hset : (s.setMessage d.message .handled).Inv := {
    pending := hqueued'.imp id fun ⟨id, hid⟩ => ⟨⟨.slow, id⟩, hid⟩
    status := hI.status
    deliveries := fun j x hx => (hI.deliveries j x hx).mono himproves }
  exact hset.setDelivery ⟨nofun, hd.2.mono himproves⟩

end

/-! ## One step -/

theorem Inv.answered (hI : s.Inv) {f : File} {v : Status} (h : found s.files f = .terminal v)
    (hv : v ≠ .failedShutdown) (lane : Lane) : s.GroundedRoute lane .answered :=
  (hI.recorded_of_found h hv).kept.answered lane

theorem sound_answer (v : Status) : s.Sound (RoutePhase.answer v).2 := by
  unfold RoutePhase.answer
  dsimp only
  split <;> trivial

/-- What a check leads to is grounded, where no answer is given on `FAILED_SHUTDOWN`. -/
theorem Inv.reads (hI : s.Inv) {lane : Lane} {p p' : RoutePhase} {e : Effect ρ}
    (hp : s.GroundedRoute lane p)
    (htrust : ∀ f ∈ p.trusts, s.files.load f ≠ some .failedShutdown)
    (h : p.reads s.files = some (p', e)) : s.Sound e ∧ s.GroundedRoute lane p' := by
  have htrusted : ∀ {f v}, f ∈ p.trusts → found s.files f = .terminal v →
      s.GroundedRoute lane .answered := fun hf hfound => hI.answered hfound
        (fun hv => htrust _ hf (hv ▸ (load_of_found hfound).1)) lane
  cases p with
  | fetchReads f =>
    simp only [RoutePhase.reads] at h
    split at h <;> obtain ⟨rfl, rfl⟩ := Prod.mk.inj (Option.some.inj h)
    · next v hfound => exact ⟨sound_answer v, htrusted rfl hfound⟩
    · exact ⟨trivial, hp⟩
    · exact ⟨trivial, hp⟩
  | fetchLoads =>
    simp only [RoutePhase.reads] at h
    split at h <;> obtain ⟨rfl, rfl⟩ := Prod.mk.inj (Option.some.inj h) <;> exact ⟨trivial, hp⟩
  | opening =>
    simp only [RoutePhase.reads] at h
    split at h <;> obtain ⟨rfl, rfl⟩ := Prod.mk.inj (Option.some.inj h)
    · next hfinal =>
      obtain ⟨v, hv, hfinal⟩ := (Option.any_eq_true _ _).1 hfinal
      obtain ⟨hterminal, hv'⟩ : v.Terminal ∧ ¬ v.Redeliverable := by simpa using hfinal
      have hkept : s.Kept := .inl ⟨v, hv, final_of_not_redeliverable hterminal hv'⟩
      exact ⟨trivial, hkept.answered lane⟩
    · exact ⟨trivial, trivial⟩
  | claimReads f =>
    simp only [RoutePhase.reads] at h
    split at h <;> obtain ⟨rfl, rfl⟩ := Prod.mk.inj (Option.some.inj h)
    · next v hfound =>
      refine ⟨trivial, ?_⟩
      split
      · trivial
      · next hv =>
        exact hI.answered hfound (final_of_not_redeliverable (load_of_found hfound).2 hv).2 lane
    · exact ⟨trivial, trivial⟩
    · exact ⟨trivial, trivial⟩
  | guards f v =>
    simp only [RoutePhase.reads] at h
    split at h <;> obtain ⟨rfl, rfl⟩ := Prod.mk.inj (Option.some.inj h)
    · next x hfound =>
      refine ⟨trivial, ?_⟩
      split
      · next hx => exact hI.answered hfound (final_of_protected hx).2 lane
      · trivial
    · exact ⟨trivial, trivial⟩
    · exact ⟨trivial, trivial⟩
  | awaiting f =>
    simp only [RoutePhase.reads] at h
    split at h <;> obtain ⟨rfl, rfl⟩ := Prod.mk.inj (Option.some.inj h)
    · next v hfound => exact ⟨sound_answer v, htrusted rfl hfound⟩
    · exact ⟨trivial, trivial⟩
    · exact ⟨trivial, trivial⟩
  | _ => cases h

theorem groundedRoute_onRaise (lane : Lane) (w : Way) :
    s.GroundedRoute lane (RoutePhase.onRaise w) := by
  cases w <;> trivial

theorem Recorded.onSaved (h : s.Recorded) (lane : Lane) (w : Way) :
    s.GroundedRoute lane (RoutePhase.onSaved w) := by
  cases w with
  | timeout => exact h
  | finish v | failed => exact h.kept.answered lane

variable [DecidableEq ρ]

/-- A write of a request is sound, and leads to a grounded point. -/
theorem proceeds_grounded {lane : Lane} {p p' : RoutePhase} {ok : Bool} {e : Effect ρ}
    (hp : s.GroundedRoute lane p) (h : p.proceeds ok = some (p', e)) :
    s.Sound e ∧ (s.perform e).GroundedRoute lane p' := by
  cases p with
  | fetching =>
    obtain ⟨rfl, rfl⟩ := Prod.mk.inj (Option.some.inj h)
    refine ⟨trivial, ?_⟩
    cases ok with
    | false => trivial
    | true => exact hp
  | fetchMarks =>
    cases ok <;> obtain ⟨rfl, rfl⟩ := Prod.mk.inj (Option.some.inj h)
    · exact ⟨trivial, trivial⟩
    · exact ⟨fun hfinal => absurd hfinal (by decide), hp⟩
  | stubbing =>
    cases ok <;> obtain ⟨rfl, rfl⟩ := Prod.mk.inj (Option.some.inj h)
    · exact ⟨trivial, trivial⟩
    · exact ⟨fun hfinal => absurd hfinal (by decide), trivial⟩
  | savingCasebook w =>
    simp only [RoutePhase.proceeds] at h
    split at h <;> obtain ⟨rfl, rfl⟩ := Prod.mk.inj (Option.some.inj h)
    · next hok =>
      have hfinal := final_of_checked hok.2
      exact ⟨.inl hfinal, ⟨w.writes, rfl, hfinal⟩⟩
    · exact ⟨trivial, groundedRoute_onRaise lane w⟩
  | savingStatus w =>
    cases ok <;> obtain ⟨rfl, rfl⟩ := Prod.mk.inj (Option.some.inj h)
    · exact ⟨trivial, groundedRoute_onRaise lane w⟩
    · have hsound : s.Sound (.saves .status w.writes : Effect ρ) := fun _ => hp
      exact ⟨hsound, Recorded.onSaved (hsound.improves.recorded hp) lane w⟩
  | timedOut =>
    obtain ⟨rfl, rfl⟩ := Prod.mk.inj (Option.some.inj h)
    have hsound : s.Sound (if ok then .deadLetters else .idle : Effect ρ) := by
      split <;> trivial
    exact ⟨hsound, (hsound.improves.kept (Recorded.kept hp)).answered lane⟩
  | failing =>
    obtain ⟨rfl, rfl⟩ := Prod.mk.inj (Option.some.inj h)
    refine ⟨?_, trivial⟩
    split <;> trivial
  | _ => cases h

/-- **A step of a request** is sound, and leads to a grounded point. -/
theorem Inv.route (hI : s.Inv) {lane : Lane} {p p' : RoutePhase} {a : RouteAct ρ} {e : Effect ρ}
    (hp : s.GroundedRoute lane p) (hfresh : s.Fresh a)
    (htrust : a = .reads → ∀ f ∈ p.trusts, s.files.load f ≠ some .failedShutdown)
    (h : p.step s.files a = some (p', e)) :
    s.Sound e ∧ (s.perform e).GroundedRoute lane p' := by
  cases a with
  | reads =>
    obtain ⟨hsound, hp'⟩ := hI.reads hp (htrust rfl) h
    exact ⟨hsound, hp'.mono hsound.improves⟩
  | proceeds ok => exact proceeds_grounded hp h
  | queues id ok =>
    simp only [RoutePhase.step] at h
    split at h
    · next hphase =>
      subst hphase
      cases ok <;> obtain ⟨rfl, rfl⟩ := Prod.mk.inj (Option.some.inj h)
      · exact ⟨trivial, trivial⟩
      · refine ⟨hfresh, .inr ⟨id, Function.update_self _ _ _⟩, fun hslow => ?_⟩
        rw [(hp : lane = .fast)] at hslow
        cases hslow
    · cases h
  | readsStub stale =>
    simp only [RoutePhase.step] at h
    split at h
    · obtain ⟨rfl, rfl⟩ := Prod.mk.inj (Option.some.inj h)
      refine ⟨trivial, ?_⟩
      split <;> trivial
    · cases h
  | claims won =>
    simp only [RoutePhase.step] at h
    split at h
    · obtain ⟨rfl, rfl⟩ := Prod.mk.inj (Option.some.inj h)
      refine ⟨trivial, ?_⟩
      split <;> trivial
    · obtain ⟨rfl, rfl⟩ := Prod.mk.inj (Option.some.inj h)
      refine ⟨trivial, ?_⟩
      split <;> trivial
    · obtain ⟨rfl, rfl⟩ := Prod.mk.inj (Option.some.inj h)
      refine ⟨trivial, ?_⟩
      split <;> trivial
    · cases h
  | graphReturns v | graphTimesOut | graphRaises | givesUp =>
    simp only [RoutePhase.step] at h
    split at h
    · obtain ⟨rfl, rfl⟩ := Prod.mk.inj (Option.some.inj h)
      exact ⟨trivial, trivial⟩
    · cases h
  | dies =>
    simp only [RoutePhase.step] at h
    split at h
    · cases h
    · obtain ⟨rfl, rfl⟩ := Prod.mk.inj (Option.some.inj h)
      exact ⟨trivial, trivial⟩

theorem Inv.produced (hI : s.Inv) (id : ρ) : (s.setMessage ⟨.fast, id⟩ .pending).Inv where
  pending := .inr ⟨_, Function.update_self _ _ _⟩
  status := hI.status
  deliveries := by
    intro i d hd
    have himproves : s.Improves (s.setMessage ⟨.fast, id⟩ .pending) :=
      improves_of_recorded (fun h => h) (fun h => h) fun x hx =>
        (messages_setMessage (by simp)).trans hx
    exact (hI.deliveries i d hd).mono himproves

/-- **A write of a shutdown** keeps the invariant, unless it replaces a final casebook. -/
theorem Inv.drainSaves [DecidableEq δ] (hI : s.Inv) {d : δ} {ok : Bool}
    (hw : ok = true → s.drains d = .savesCasebook → ¬ s.Recorded)
    (h : s.drainSaves d ok = some t) : t.Inv := by
  unfold Packet.drainSaves at h
  split at h
  · next hdrain =>
    obtain rfl := Option.some.inj h
    split
    · next hok =>
      exact (hI.perform (e := .saves .casebook .failedShutdown) (.inr (hw hok hdrain))).setDrain
    · exact hI.setDrain
  · obtain rfl := Option.some.inj h
    refine (hI.perform ?_).setDrain
    split
    · exact fun hfinal => absurd rfl hfinal.2
    · trivial
  · cases h

variable [DecidableEq ι]

theorem Inv.decides (hI : s.Inv) {i : ι} {d : Delivery ρ} {ok : Bool} (hd : s.Grounded d)
    (htrust : ok = true → s.files.casebook ≠ some .failedShutdown) : (s.decides i d ok).Inv := by
  unfold Packet.decides
  split
  · exact hI.setDelivery ⟨nofun, hd.2⟩
  next hok =>
  split
  · next hskips =>
    obtain ⟨v, hv, hterminal⟩ := (Option.any_eq_true _ _).1 hskips
    have hkept : s.Kept := by
      refine .inl ⟨v, hv, by simpa using hterminal, ?_⟩
      rintro rfl
      exact htrust (by simpa using hok) hv
    exact (hI.settle hd hkept.queued fun _ => hkept).dismiss _
  · refine hI.setDelivery ⟨nofun, ?_⟩
    cases hlane : d.message.lane with
    | fast => rfl
    | slow => trivial

/-- **A step of a consumer** keeps the invariant. -/
theorem Inv.consumes (hI : s.Inv) {i : ι} {d : Delivery ρ} {a : ListenerAct}
    (hd : s.Grounded d) (htrust : a = .decides true → d.listener = .deciding →
      s.files.casebook ≠ some .failedShutdown) (h : s.consumes i d a = some t) : t.Inv := by
  cases a with
  | decides ok =>
    simp only [Packet.consumes] at h
    split at h
    · next hdeciding =>
      obtain rfl := Option.some.inj h
      exact hI.decides hd fun hok => htrust (by rw [hok]) hdeciding
    · cases h
  | hears =>
    simp only [Packet.consumes] at h
    split at h
    · split at h
      · next hroute =>
        obtain rfl := Option.some.inj h
        have hanswered := hd.2
        rw [hroute] at hanswered
        exact hI.settle hd hanswered.1 hanswered.2
      · obtain rfl := Option.some.inj h
        exact hI.setDelivery ⟨nofun, hd.2⟩
      · cases h
    · cases h
  | timesOut =>
    simp only [Packet.consumes] at h
    split at h
    · obtain rfl := Option.some.inj h
      exact hI.setDelivery ⟨nofun, hd.2⟩
    · cases h
  | saves ok =>
    simp only [Packet.consumes] at h
    split at h
    · split at h
      · obtain rfl := Option.some.inj h
        have hsound : s.Sound (.saves .casebook .failedTimeout : Effect ρ) := .inl (by decide)
        exact (hI.perform hsound).setDelivery
          ⟨fun _ => ⟨.failedTimeout, rfl, by decide⟩, hd.2.mono hsound.improves⟩
      · obtain rfl := Option.some.inj h
        exact hI.setDelivery ⟨nofun, hd.2⟩
    · next hlistener =>
      obtain rfl := Option.some.inj h
      have hsound : s.Sound (if ok then .saves .status .failedTimeout else .idle : Effect ρ) := by
        split
        · exact fun _ => hd.1 hlistener
        · trivial
      exact (hI.perform hsound).setDelivery ⟨nofun, hd.2.mono hsound.improves⟩
    · cases h
  | publishes ok =>
    simp only [Packet.consumes] at h
    split at h
    · cases ok with
      | false =>
        obtain rfl := Option.some.inj h
        exact hI.setDelivery ⟨nofun, hd.2⟩
      | true =>
        obtain rfl := Option.some.inj h
        have hsound : s.Sound (.deadLetters : Effect ρ) := trivial
        have hkept : (s.perform .deadLetters).Kept := .inr rfl
        exact (hI.perform hsound).settle (hd.mono hsound.improves) hkept.queued fun _ => hkept
    · cases h
  | dies =>
    obtain rfl := Option.some.inj h
    exact hI.setDelivery ⟨nofun, hd.2⟩

variable [DecidableEq δ]

/-- **A step within the condition keeps the invariant.** -/
theorem Inv.step (hI : s.Inv) {a : PacketAction ι δ ρ} (hw : s.Within a)
    (h : s.step a = some t) : t.Inv := by
  cases a with
  | produced id =>
    simp only [Packet.step] at h
    split at h
    · obtain rfl := Option.some.inj h
      exact hI.produced id
    · cases h
  | delivered i m =>
    simp only [Packet.step] at h
    split at h
    · obtain rfl := Option.some.inj h
      exact hI.setDelivery ⟨nofun, trivial⟩
    · cases h
  | consumes i a =>
    obtain ⟨d, hd, h⟩ := Option.bind_eq_some_iff.1 h
    refine hI.consumes (hI.deliveries i d hd) (fun ha => ?_) h
    subst ha
    exact hw.1 d hd
  | routes i a =>
    simp only [Packet.step] at h
    split at h
    · next hfresh =>
      obtain ⟨d, hd, h⟩ := Option.bind_eq_some_iff.1 h
      obtain ⟨⟨p, e⟩, hstep, rfl⟩ := Option.map_eq_some_iff.1 h
      have hg := hI.deliveries i d hd
      obtain ⟨hsound, hp⟩ := hI.route hg.2 hfresh (fun ha => by subst ha; exact hw.1 d hd) hstep
      exact (hI.perform hsound).setDelivery ⟨(hg.mono hsound.improves).1, hp⟩
    · cases h
  | drainStarts d i =>
    simp only [Packet.step] at h
    split at h
    · obtain rfl := Option.some.inj h
      exact hI.setDrain
    · cases h
  | drainReads d =>
    simp only [Packet.step, Packet.drainReads] at h
    split at h
    · split at h <;> obtain rfl := Option.some.inj h <;> exact hI.setDrain
    · cases h
  | drainSaves d ok => exact hI.drainSaves (fun hok => hw.2 d (by rw [hok])) h

end Packet

end Packets

end ResidentCrm
