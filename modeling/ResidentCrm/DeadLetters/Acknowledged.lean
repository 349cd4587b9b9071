import ResidentCrm.DeadLetters.Lanes
import Mathlib.Algebra.GroupWithZero.Nat

/-!
# Failures that are answered for

A failure is recorded by a request or by a consumer, and whichever of them records it publishes the
message, before or after. An actor owes the message from the point where it may have recorded the
failure to its publish; `Accountable` says of a lane's route what makes this add up, and a run of
dependable steps then leaves no failure that is neither published nor owed
(`published_or_owed`).
-/

namespace ResidentCrm

namespace DeadLetters

open Storage Packets

/-- One of the two files carries `FAILED_TIMEOUT` or `DLQ`. -/
def RecordsFailure (files : Files Status) : Prop := ∃ f, ∃ v ∈ files.load f, v.Protected

theorem recordsFailure_of_terminalStatus {files : Files Status} {v : Status}
    (h : terminalStatus files = some v) (hv : v.Protected) : RecordsFailure files := by
  rcases Option.or_eq_some_iff.1 h with h | ⟨-, h⟩
  · exact ⟨.status, v, (Option.filter_eq_some_iff.1 h).1, hv⟩
  · exact ⟨.casebook, v, (Option.filter_eq_some_iff.1 h).1, hv⟩

/-- A save leaves a failure recorded only where it was, or where it records one. -/
theorem recordsFailure_save {files : Files Status} {f : File} {v : Status}
    (h : RecordsFailure (files.save v f)) : RecordsFailure files ∨ v.Protected := by
  obtain ⟨g, x, hx, hprotected⟩ := h
  cases f <;> cases g
  · exact .inr (Option.some.inj hx ▸ hprotected)
  · exact .inl ⟨.status, x, hx, hprotected⟩
  · exact .inl ⟨.casebook, x, hx, hprotected⟩
  · exact .inr (Option.some.inj hx ▸ hprotected)

/-! ## What a lane's route has to keep -/

/-- After a step to `q` with the effect `e`: a failure it records is published (`b`) or owed from
then on, and `q` is sound. -/
def Settles {π : Type*} (Owes : π → Prop) (Sound : Prop → π → Prop) (b : Prop) (q : π)
    (e : Effect Unit) : Prop :=
  (∀ f v, e = .saves f v → v.Protected → Owes q ∨ b) ∧ Sound (b ∨ e = .deadLetters) q

/-- `Owes`: the request may have recorded a failure that it has yet to publish. `Sound b`: where it
stands is sound, `b` being that the message is published. -/
structure Accountable {π α : Type*} (L : AnalysisLane π α) (C : Files Status → π → α → Prop)
    (Owes : π → Prop) (Sound : Prop → π → Prop) : Prop where
  entry : ∀ b reader, Sound b (L.entry reader)
  mono : ∀ {b b' : Prop} {p}, (b → b') → Sound b p → Sound b' p
  /-- A debt is kept or paid. -/
  owes : ∀ {files p a q e}, C files p a → L.step files p a = some (q, e) → RecordsFailure files →
    Owes p → Owes q ∨ e = .deadLetters
  settles : ∀ {files p a q e} {b : Prop}, C files p a → L.step files p a = some (q, e) →
    Sound b p → Settles Owes Sound b q e

/-! ## The rejection lane -/

namespace Rejection

/-- Publishes go through, and no process dies between recording a failure and its publish. -/
def Dependable (files : Files Status) : RoutePhase → RejectionAct → Prop
  | .timedOut, .does (.proceeds ok) | .failing, .does (.proceeds ok) => ok = true
  | .savingStatus .timeout, .does .dies | .timedOut, .does .dies | .failing, .does .dies =>
    ¬ RecordsFailure files
  | _, _ => True

/-- The timeout is recorded, at least in `casebook.json`, or an exception is to be published. -/
def Owes : RoutePhase → Prop
  | .savingStatus .timeout | .timedOut | .failing => True
  | _ => False

/-- A finished casebook has passed its check, and `DLQ` follows its publish. -/
def Sound (b : Prop) : RoutePhase → Prop
  | .savingStatus (.finish v) => ¬ v.Protected
  | .savingCasebook .failed | .savingStatus .failed => b
  | _ => True

variable {files : Files Status} {p q : RoutePhase} {a : RejectionAct} {e : Effect Unit}
  {b b' : Prop}

theorem sound_mono (h : b → b') (hp : Sound b p) : Sound b' p := by
  unfold Sound at hp ⊢
  split at hp
  · exact hp
  · exact h hp
  · exact h hp
  · trivial

theorem owes_step (hc : Dependable files p a) (h : rejectionStep files p a = some (q, e))
    (hf : RecordsFailure files) (hp : Owes p) : Owes q ∨ e = .deadLetters := by
  unfold Owes at hp
  split at hp
  · -- a save that raises is caught, and the exception is then published
    rcases a with (_ | ok | _ | _ | _ | _ | _ | _ | _ | _) | _ <;> try cases h
    · cases ok <;> cases h <;> exact .inl trivial
    · exact absurd hf hc
  · rcases a with (_ | ok | _ | _ | _ | _ | _ | _ | _ | _) | _ <;> cases h
    · obtain rfl : ok = true := hc
      exact .inr rfl
    · exact absurd hf hc
  · rcases a with (_ | ok | _ | _ | _ | _ | _ | _ | _ | _) | _ <;> cases h
    · obtain rfl : ok = true := hc
      exact .inr rfl
    · exact absurd hf hc
  · exact hp.elim

theorem settles_answer (v : Status) :
    Settles Owes Sound b (RoutePhase.answer v : RoutePhase × Effect Unit).1
      (RoutePhase.answer v).2 := by
  refine ⟨fun f x h => ?_, trivial⟩
  unfold RoutePhase.answer at h
  dsimp only at h
  split at h <;> cases h

theorem reads_settles (h : p.reads files = some (q, e)) : Settles Owes Sound b q e := by
  cases p with
  | fetchReads f | awaiting f =>
    simp only [RoutePhase.reads] at h
    split at h <;> obtain ⟨rfl, rfl⟩ := Prod.mk.inj (Option.some.inj h)
    · exact settles_answer _
    · exact ⟨nofun, trivial⟩
    · exact ⟨nofun, trivial⟩
  | fetchLoads | opening =>
    simp only [RoutePhase.reads] at h
    split at h <;> cases h <;> exact ⟨nofun, trivial⟩
  | claimReads f | guards f v =>
    simp only [RoutePhase.reads] at h
    split at h <;> obtain ⟨rfl, rfl⟩ := Prod.mk.inj (Option.some.inj h)
    · refine ⟨nofun, ?_⟩
      split <;> trivial
    · exact ⟨nofun, trivial⟩
    · exact ⟨nofun, trivial⟩
  | _ => cases h

theorem sound_onRaise (w : Way) : Sound b (RoutePhase.onRaise w) := by
  cases w <;> trivial

theorem settles_casebook {w : Way} (hp : Sound b (.savingCasebook w)) (hw : w.Checked) :
    Settles Owes Sound b (.savingStatus w) (.saves .casebook w.writes) := by
  cases w with
  | finish v =>
    have hv : ¬ v.Protected := Status.Investigated.not_protected hw
    refine ⟨fun f x h hx => ?_, hv⟩
    cases h
    exact absurd hx hv
  | timeout => exact ⟨fun _ _ _ _ => .inl trivial, trivial⟩
  | failed => exact ⟨fun _ _ _ _ => .inr hp, .inl hp⟩

theorem settles_status {w : Way} (hp : Sound b (.savingStatus w)) :
    Settles Owes Sound b (RoutePhase.onSaved w) (.saves .status w.writes) := by
  cases w with
  | finish v =>
    refine ⟨fun f x h hx => ?_, trivial⟩
    cases h
    exact absurd hx hp
  | timeout => exact ⟨fun _ _ _ _ => .inl trivial, trivial⟩
  | failed => exact ⟨fun _ _ _ _ => .inr hp, trivial⟩

theorem proceeds_settles {ok : Bool} (hc : Dependable files p (.does (.proceeds ok)))
    (hp : Sound b p) (h : p.proceeds ok = some (q, e)) : Settles Owes Sound b q e := by
  cases p with
  | fetching | fetchMarks | stubbing =>
    cases ok <;> cases h
    · exact ⟨nofun, trivial⟩
    · exact ⟨nofun, trivial⟩
  | savingCasebook w =>
    simp only [RoutePhase.proceeds] at h
    split at h <;> obtain ⟨rfl, rfl⟩ := Prod.mk.inj (Option.some.inj h)
    · next hok => exact settles_casebook hp hok.2
    · exact ⟨nofun, sound_onRaise w⟩
  | savingStatus w =>
    cases ok <;> obtain ⟨rfl, rfl⟩ := Prod.mk.inj (Option.some.inj h)
    · exact ⟨nofun, sound_onRaise w⟩
    · exact settles_status hp
  | timedOut =>
    obtain ⟨rfl, rfl⟩ := Prod.mk.inj (Option.some.inj h)
    refine ⟨fun f v h => ?_, trivial⟩
    split at h <;> cases h
  | failing =>
    obtain rfl : ok = true := hc
    cases h
    exact ⟨nofun, .inr rfl⟩
  | _ => cases h

/-- **A step of a request** of the rejection lane. -/
theorem step_settles (hc : Dependable files p a) (hp : Sound b p)
    (h : rejectionStep files p a = some (q, e)) : Settles Owes Sound b q e := by
  rcases a with a | _
  · cases a with
    | reads => exact reads_settles h
    | proceeds ok => exact proceeds_settles hc hp h
    | queues _ ok =>
      simp only [rejectionStep, RoutePhase.step] at h
      split at h
      · cases ok <;> cases h <;> exact ⟨nofun, trivial⟩
      · cases h
    | readsStub _ =>
      simp only [rejectionStep, RoutePhase.step] at h
      split at h
      · obtain ⟨rfl, rfl⟩ := Prod.mk.inj (Option.some.inj h)
        refine ⟨nofun, ?_⟩
        split <;> trivial
      · cases h
    | claims won =>
      simp only [rejectionStep, RoutePhase.step] at h
      split at h <;> cases h <;> cases won <;> exact ⟨nofun, trivial⟩
    | graphReturns _ | graphTimesOut | graphRaises | givesUp | dies =>
      simp only [rejectionStep, RoutePhase.step] at h
      split at h <;> cases h
      exact ⟨nofun, trivial⟩
  · simp only [rejectionStep] at h
    split at h <;> cases h
    exact ⟨nofun, trivial⟩

theorem accountable : Accountable rejectionLane Dependable Owes Sound where
  entry
    | _, .fast | _, .slow => trivial
  mono := sound_mono
  owes := owes_step
  settles := fun hc h hp => step_settles hc hp h

end Rejection

/-! ## The DLT lane -/

namespace Dlt

/-- The server-side budget of a request does not run out. -/
def Dependable (_ : Files Status) (_ : DltPhase) (a : DltAct) : Prop := a ≠ .outOfBudget

/-- A request of this lane publishes nothing itself. -/
def Owes (_ : DltPhase) : Prop := False

/-- A finished casebook carries no failure, and no other is saved. -/
def Sound (_ : Prop) : DltPhase → Prop
  | .guards _ v => ¬ v.Protected
  | .savingCasebook w | .savingStatus w => ¬ w.writes.Protected
  | _ => True

variable {files : Files Status} {p q : DltPhase} {a : DltAct} {e : Effect Unit} {b : Prop}

theorem not_protected_terminalStatusOf (noAction : Bool) :
    ¬ (DltPhase.terminalStatusOf noAction).Protected := by
  cases noAction <;> decide

theorem reads_sound (hp : Sound b p) (h : p.reads files = some q) : Sound b q := by
  cases p with
  | fetchReads f | fetchLoads | opening f =>
    simp only [DltPhase.reads] at h
    split at h <;> cases h <;> trivial
  | guards f v =>
    simp only [DltPhase.reads] at h
    split at h <;> cases h
    · split
      · trivial
      · exact hp
    · exact hp
    · exact hp
  | _ => cases h

theorem next_settles (hp : Sound b p) (h : p.next = some (q, e)) : Settles Owes Sound b q e := by
  cases p with
  | savingCasebook w | savingStatus w =>
    cases h
    refine ⟨fun f v h hv => ?_, by first | exact hp | trivial⟩
    cases h
    exact absurd hv hp
  | fetching | fetchMarks | fetchQueues | readingClaim | gating =>
    cases h
    exact ⟨nofun, trivial⟩
  | _ => cases h

/-- **A step of a request** of the DLT lane. -/
theorem step_settles (hc : Dependable files p a) (hp : Sound b p)
    (h : p.step files a = some (q, e)) : Settles Owes Sound b q e := by
  cases a with
  | reads =>
    obtain ⟨x, hx, h⟩ := Option.map_eq_some_iff.1 h
    obtain ⟨rfl, rfl⟩ := Prod.mk.inj h
    exact ⟨nofun, reads_sound hp hx⟩
  | proceeds ok =>
    obtain ⟨x, hx, h⟩ := Option.map_eq_some_iff.1 h
    cases ok with
    | false =>
      cases h
      exact ⟨nofun, trivial⟩
    | true =>
      obtain rfl : x = (q, e) := h
      exact next_settles hp hx
  | investigated noAction =>
    simp only [DltPhase.step] at h
    split at h <;> cases h
    exact ⟨nofun, not_protected_terminalStatusOf noAction⟩
  | outOfBudget => exact absurd rfl hc
  | skipped =>
    simp only [DltPhase.step] at h
    split at h <;> cases h
    exact ⟨nofun, trivial⟩
  | raises =>
    cases h
    exact ⟨nofun, trivial⟩

theorem accountable : Accountable dltLane Dependable Owes Sound where
  entry
    | _, .fast | _, .slow => trivial
  mono := fun {_ _ p} _ hp => by cases p <;> exact hp
  owes := fun _ _ _ hp => hp.elim
  settles := fun hc h hp => step_settles hc hp h

end Dlt

/-! ## All the deliveries -/

/-- The consumer has recorded its timeout, at least in `casebook.json`, or is to publish. -/
def ListenerOwes : ListenerPhase → Prop
  | .savingStatus | .deadLettering => True
  | _ => False

namespace Delivery

variable {π : Type*}

/-- The consumer or the request of the delivery stands between a failure and its publish. -/
def Owing (Owes : π → Prop) (d : Delivery π) : Prop :=
  ListenerOwes d.listener ∨ ∃ p ∈ d.route, Owes p

end Delivery

namespace Case

variable {ι π α : Type*}

/-- Delivery `i` stands between a failure and its publish. -/
def Owed (Owes : π → Prop) (s : Case ι π) (i : ι) : Prop := ∃ d ∈ s.deliveries i, d.Owing Owes

def Dependable (C : Files Status → π → α → Prop) (s : Case ι π) : CaseAction ι α → Prop
  | .consumes _ (.publishes ok) => ok = true
  | .consumes i .dies => ∀ d ∈ s.deliveries i, ListenerOwes d.listener → ¬ RecordsFailure s.files
  | .routes i a => ∀ d ∈ s.deliveries i, ∀ p ∈ d.route, C s.files p a
  | _ => True

/-- A recorded failure is published or owed. -/
def Settled (Owes : π → Prop) (s : Case ι π) : Prop :=
  RecordsFailure s.files → s.published = true ∨ ∃ i, s.Owed Owes i

structure Inv (Owes : π → Prop) (Sound : Prop → π → Prop) (s : Case ι π) : Prop where
  settled : s.Settled Owes
  unposted : ∀ i, ∀ d ∈ s.deliveries i, d.listener = .deciding → d.route = none
  sound : ∀ i, ∀ d ∈ s.deliveries i, ∀ p ∈ d.route, Sound (s.published = true) p

variable {L : AnalysisLane π α} {C : Files Status → π → α → Prop} {Owes : π → Prop}
  {Sound : Prop → π → Prop} {s t : Case ι π} {i : ι} {d d' : Delivery π}

theorem perform_deliveries (e : Effect Unit) : (s.perform e).deliveries = s.deliveries := by
  cases e <;> rfl

theorem published_perform {e : Effect Unit} :
    (s.perform e).published = true ↔ s.published = true ∨ e = .deadLetters := by
  cases e <;> simp [perform]

/-- A failure is recorded after a step where it was before, or where the step saves it. -/
theorem recordsFailure_perform {e : Effect Unit} (h : RecordsFailure (s.perform e).files) :
    RecordsFailure s.files ∨ ∃ f v, e = .saves f v ∧ v.Protected := by
  cases e with
  | saves f v => exact (recordsFailure_save h).imp id fun hv => ⟨f, v, rfl, hv⟩
  | idle | deadLetters | queues _ | dismisses => exact .inl h

section

variable [DecidableEq ι]

@[simp] theorem setDelivery_files : (s.setDelivery i d).files = s.files := rfl

@[simp] theorem setDelivery_published : (s.setDelivery i d).published = s.published := rfl

theorem setDelivery_self : (s.setDelivery i d).deliveries i = some d := Function.update_self ..

theorem setDelivery_of_ne {j : ι} (h : j ≠ i) :
    (s.setDelivery i d).deliveries j = s.deliveries j := Function.update_of_ne h ..

/-- **What one delivery keeps**: its step from `d` to `d'` leaves no new debt unowed. -/
theorem Inv.set (hI : s.Inv Owes Sound) (hmono : ∀ p, Sound (s.published = true) p →
      Sound (t.published = true) p) (hdeliveries : t.deliveries = s.deliveries)
    (hpublished : s.published = true → t.published = true)
    (hrecords : RecordsFailure t.files → t.published = true ∨ d'.Owing Owes ∨
      RecordsFailure s.files ∧
        ∀ d ∈ s.deliveries i, d.Owing Owes → t.published = true ∨ d'.Owing Owes)
    (hunposted : d'.listener = .deciding → d'.route = none)
    (hsound : ∀ p ∈ d'.route, Sound (t.published = true) p) :
    (t.setDelivery i d').Inv Owes Sound where
  settled := by
    intro hfailure
    have howed : d'.Owing Owes → ∃ j, (t.setDelivery i d').Owed Owes j :=
      fun h => ⟨i, d', setDelivery_self, h⟩
    rcases hrecords hfailure with h | h | ⟨hbefore, hown⟩
    · exact .inl h
    · exact .inr (howed h)
    · rcases hI.settled hbefore with h | ⟨j, d, hd, hj⟩
      · exact .inl (hpublished h)
      · by_cases hji : j = i
        · exact (hown d (hji ▸ hd) hj).imp id howed
        · exact .inr ⟨j, d, by rwa [setDelivery_of_ne hji, hdeliveries], hj⟩
  unposted := by
    intro j x hx
    by_cases hji : j = i
    · rw [hji, setDelivery_self] at hx
      exact Option.some.inj hx ▸ hunposted
    · rw [setDelivery_of_ne hji, hdeliveries] at hx
      exact hI.unposted j x hx
  sound := by
    intro j x hx p hp
    by_cases hji : j = i
    · rw [hji, setDelivery_self] at hx
      exact hsound p (Option.some.inj hx ▸ hp)
    · rw [setDelivery_of_ne hji, hdeliveries] at hx
      exact hmono p (hI.sound j x hx p hp)

/-- A step of one consumer that saves nothing, after which it owes or owed nothing. -/
theorem Inv.listens (hI : s.Inv Owes Sound)
    (hd : d ∈ s.deliveries i) {x : ListenerPhase}
    (hx : ListenerOwes d.listener → ListenerOwes x) (hdeciding : x ≠ .deciding) :
    (s.setDelivery i { d with listener := x }).Inv Owes Sound := by
  refine hI.set (fun _ => id) rfl id (fun h => .inr (.inr ⟨h, fun y hy howes => .inr ?_⟩))
    (fun h => absurd h hdeciding) fun p hp => hI.sound i d hd p hp
  obtain rfl : d = y := Option.some.inj (hd.symm.trans hy)
  exact howes.imp hx id

/-- A step of one consumer that may save or publish, and after which it owes. -/
theorem Inv.owing (hI : s.Inv Owes Sound) (A : Accountable L C Owes Sound)
    (hd : d ∈ s.deliveries i) (ok : Bool) (e : Effect Unit) {x : ListenerPhase}
    (hx : ListenerOwes x) :
    ((s.performIf ok e).setDelivery i { d with listener := x }).Inv Owes Sound := by
  have hpublished : s.published = true → (s.performIf ok e).published = true := by
    intro h
    unfold performIf
    split
    · exact published_perform.2 (.inl h)
    · exact h
  have hdeliveries : (s.performIf ok e).deliveries = s.deliveries := by
    unfold performIf
    split
    · exact perform_deliveries e
    · rfl
  refine hI.set (fun _ => A.mono hpublished) hdeliveries hpublished
    (fun _ => .inr (.inl (.inl hx))) (fun h => ?_)
    fun p hp => A.mono hpublished (hI.sound i d hd p hp)
  obtain rfl : x = .deciding := h
  exact hx.elim

theorem Inv.consumes [DecidableEq π] (hI : s.Inv Owes Sound) (A : Accountable L C Owes Sound)
    {a : ListenerAct} (hd : d ∈ s.deliveries i) (hc : Dependable C s (.consumes i a))
    (h : consumes L s i d a = some t) : t.Inv Owes Sound := by
  cases a with
  | decides ok =>
    simp only [Case.consumes] at h
    split at h
    · next hdeciding =>
      cases h
      unfold decides
      split
      · exact hI.listens hd (fun _ => trivial) nofun
      · split
        · exact hI.listens hd (by simp [hdeciding, ListenerOwes]) nofun
        · refine hI.set (fun _ => id) rfl id (fun h => .inr (.inr ⟨h, fun y hy howes => ?_⟩))
            nofun fun p hp => ?_
          · obtain rfl : d = y := Option.some.inj (hd.symm.trans hy)
            rcases howes with howes | ⟨p, hp, -⟩
            · rw [hdeciding] at howes
              exact howes.elim
            · rw [hI.unposted i d hd hdeciding] at hp
              cases hp
          · obtain rfl : L.entry d.reader = p := Option.some.inj hp
            exact A.entry _ _
    · cases h
  | hears =>
    simp only [Case.consumes] at h
    split at h
    · next hwaiting =>
      cases h
      exact hI.listens hd (by simp [hwaiting.1, ListenerOwes]) nofun
    · split at h <;> cases h
      exact hI.listens hd (fun _ => trivial) nofun
  | timesOut =>
    simp only [Case.consumes] at h
    split at h
    · next hwaiting =>
      cases h
      exact hI.listens hd (by simp [hwaiting, ListenerOwes]) nofun
    · cases h
  | saves ok =>
    simp only [Case.consumes] at h
    split at h <;> cases h
    · exact hI.owing A hd ok _ (by cases ok <;> trivial)
    · exact hI.owing A hd ok _ trivial
  | publishes ok =>
    obtain rfl : ok = true := hc
    simp only [Case.consumes] at h
    split at h <;> cases h
    exact hI.set (fun _ => A.mono fun _ => rfl) rfl (fun _ => rfl) (fun _ => .inl rfl) nofun
      fun p hp => A.mono (fun _ => rfl) (hI.sound i d hd p hp)
  | dies =>
    cases h
    by_cases hfailure : RecordsFailure s.files
    · exact hI.listens hd (fun howes => absurd hfailure (hc d hd howes)) nofun
    · exact hI.set (fun _ => id) rfl id (fun h => absurd h hfailure) nofun
        fun p hp => hI.sound i d hd p hp

theorem Inv.routes (hI : s.Inv Owes Sound) (A : Accountable L C Owes Sound) {a : α} {p q : π}
    {e : Effect Unit} (hd : d ∈ s.deliveries i) (hp : p ∈ d.route)
    (hc : Dependable C s (.routes i a)) (h : L.step s.files p a = some (q, e)) :
    ((s.perform e).setDelivery i { d with route := some q }).Inv Owes Sound := by
  have hc := hc d hd p hp
  have hpublished : s.published = true → (s.perform e).published = true :=
    fun h => published_perform.2 (.inl h)
  obtain ⟨hsaves, hsound⟩ := A.settles hc h (hI.sound i d hd p hp)
  refine hI.set (fun _ => A.mono hpublished) (perform_deliveries e) hpublished (fun hfailure => ?_)
    (fun hdeciding => ?_) fun x hx => ?_
  · rcases recordsFailure_perform hfailure with hbefore | ⟨f, v, he, hv⟩
    · refine .inr (.inr ⟨hbefore, fun y hy howes => ?_⟩)
      obtain rfl : d = y := Option.some.inj (hd.symm.trans hy)
      rcases howes with howes | ⟨x, hx, howes⟩
      · exact .inr (.inl howes)
      · obtain rfl : p = x := Option.some.inj (hp.symm.trans hx)
        rcases A.owes hc h hbefore howes with hq | he
        · exact .inr (.inr ⟨q, rfl, hq⟩)
        · exact .inl (published_perform.2 (.inr he))
    · rcases hsaves f v he hv with hq | hb
      · exact .inr (.inl (.inr ⟨q, rfl, hq⟩))
      · exact .inl (hpublished hb)
  · rw [hI.unposted i d hd hdeciding] at hp
    cases hp
  · obtain rfl : q = x := Option.some.inj hx
    exact A.mono published_perform.2 hsound

theorem Inv.step [DecidableEq π] (hI : s.Inv Owes Sound) (A : Accountable L C Owes Sound)
    {a : CaseAction ι α} (hc : Dependable C s a) (h : step L s a = some t) : t.Inv Owes Sound := by
  cases a with
  | delivered i reader =>
    simp only [Case.step] at h
    split at h
    · next hnone =>
      cases h
      refine hI.set (fun _ => id) rfl id (fun h => .inr (.inr ⟨h, fun y hy => ?_⟩)) (fun _ => rfl)
        nofun
      rw [hnone] at hy
      cases hy
    · cases h
  | consumes i a =>
    obtain ⟨d, hd, h⟩ := Option.bind_eq_some_iff.1 h
    exact hI.consumes A hd hc h
  | routes i a =>
    obtain ⟨d, hd, h⟩ := Option.bind_eq_some_iff.1 h
    obtain ⟨p, hp, h⟩ := Option.bind_eq_some_iff.1 h
    obtain ⟨⟨q, e⟩, hstep, rfl⟩ := Option.map_eq_some_iff.1 h
    exact hI.routes A hd hp hc hstep
  | recorded f v =>
    simp only [Case.step] at h
    split at h
    · cases h
    · next hv =>
      cases h
      exact {
        settled := fun h => hI.settled ((recordsFailure_save h).resolve_right hv)
        unposted := hI.unposted
        sound := hI.sound }

theorem inv_of_reach [DecidableEq π] (A : Accountable L C Owes Sound)
    (hs : (machine ι L).Reach (Dependable C) s) : s.Inv Owes Sound := by
  refine hs.invariant (fun s hs => ?_) fun s a t hI hc h => hI.step A hc h
  obtain ⟨hfiles, -, hnone⟩ := hs
  refine ⟨fun ⟨f, v, hv, hprotected⟩ => absurd hprotected (hfiles f v hv), ?_, ?_⟩
  · intro i d hd
    rw [hnone] at hd
    cases hd
  · intro i d hd
    rw [hnone] at hd
    cases hd

/-- **The law**: where a request of the message has been answered with success and the status
recorded is `FAILED_TIMEOUT` or `DLQ`, the message is in the dead-letter queue. -/
def Lawful (L : AnalysisLane π α) (s : Case ι π) : Prop :=
  ∀ i, ∀ d ∈ s.deliveries i, d.route = some L.answered →
    ∀ v ∈ terminalStatus s.files, v.Protected → s.published = true

omit [DecidableEq ι] in
theorem Inv.lawful_or_owing (hI : s.Inv Owes Sound) : s.Lawful L ∨ ∃ i, s.Owed Owes i := by
  by_cases hfailure : RecordsFailure s.files
  · exact (hI.settled hfailure).imp (fun h _ _ _ _ _ _ _ => h) id
  · exact .inl fun _ _ _ _ v hv hprotected =>
      absurd (recordsFailure_of_terminalStatus hv hprotected) hfailure

end

end Case

/-- **Failures answered for**: in both lanes, and in every run in which the publishes go through and
no process dies between recording a failure and its publish, the message of every answered failure
is in the dead-letter queue, or a delivery stands between recording the failure and publishing it. -/
theorem lawful_or_owed (ι : Type*) [DecidableEq ι] :
    (∀ s, (Case.machine ι rejectionLane).Reach (Case.Dependable Rejection.Dependable) s →
      s.Lawful rejectionLane ∨ ∃ i, s.Owed Rejection.Owes i) ∧
    (∀ s, (Case.machine ι dltLane).Reach (Case.Dependable Dlt.Dependable) s →
      s.Lawful dltLane ∨ ∃ i, s.Owed Dlt.Owes i) :=
  ⟨fun _ hs => (Case.inv_of_reach Rejection.accountable hs).lawful_or_owing,
    fun _ hs => (Case.inv_of_reach Dlt.accountable hs).lawful_or_owing⟩

/-! ## Failures that are lost -/

namespace Case

variable {ι π α : Type*}

/-- A request is answered with success, and the failure recorded is not published. -/
def lost [DecidableEq π] (L : AnalysisLane π α) (i : ι) (s : Case ι π) : Bool :=
  (s.deliveries i).any (fun d => d.route = some L.answered) &&
    (terminalStatus s.files).any (·.Protected) && !s.published

theorem not_lawful_of_lost [DecidableEq π] {L : AnalysisLane π α} {i : ι} {s : Case ι π}
    (h : s.lost L i = true) : ¬ s.Lawful L := by
  simp only [lost, Bool.and_eq_true, Option.any_eq_true, decide_eq_true_eq, Bool.not_eq_true'] at h
  obtain ⟨⟨⟨d, hd, hroute⟩, v, hv, hprotected⟩, hpublished⟩ := h
  intro hlaw
  rw [hlaw i d hd hroute v hv hprotected] at hpublished
  cases hpublished

end Case

def undelivered (ι π : Type*) : Case ι π := ⟨⟨none, none⟩, false, fun _ => none⟩

theorem fresh_undelivered (ι π : Type*) : (undelivered ι π).Fresh := by
  refine ⟨fun f v hv => ?_, rfl, fun _ => rfl⟩
  cases f <;> cases hv

local instance neZero_two : NeZero 2 := ⟨Nat.succ_ne_zero 1⟩

/-- The request of delivery 0 runs past the server's budget, and records it in both files. -/
def timedOutRun : List (CaseAction (Fin 2) RejectionAct) :=
  [.delivered 0 .slow, .consumes 0 (.decides true), .delivered 1 .slow,
    .consumes 1 (.decides true), .routes 0 (.does .reads), .routes 0 (.does (.readsStub false)),
    .routes 0 (.does (.claims true)), .routes 0 (.does (.proceeds true)),
    .routes 0 (.does .graphTimesOut), .routes 0 (.does (.proceeds true)),
    .routes 0 (.does (.proceeds true))]

/-- Two consumers post a DLT record to the analysis route. -/
def postedRun : List (CaseAction (Fin 2) DltAct) :=
  [.delivered 0 .slow, .consumes 0 (.decides true), .delivered 1 .slow,
    .consumes 1 (.decides true)]

/-- A consumer has timed out and recorded it, and dies; the request of the other delivery is
answered. -/
def deadConsumerRun : List (CaseAction (Fin 2) DltAct) :=
  postedRun ++ [.consumes 0 .timesOut, .consumes 0 (.saves true), .consumes 0 .dies,
    .routes 1 .reads, .routes 1 .reads]

/-- The server's budget runs out on a DLT record. -/
def outOfBudgetRun : List (CaseAction (Fin 2) DltAct) :=
  postedRun ++ [.routes 0 .reads, .routes 0 .reads, .routes 0 (.proceeds true),
    .routes 0 (.proceeds true), .routes 0 .outOfBudget, .routes 0 (.proceeds true),
    .routes 0 (.proceeds true)]

/-- The run of `as` ends with an answered failure that is not published. -/
def Loses {π α : Type} [DecidableEq π] (L : AnalysisLane π α) (as : List (CaseAction (Fin 2) α)) :
    Prop :=
  ∃ s, (Case.machine (Fin 2) L).run (undelivered (Fin 2) π) as = some s ∧ ¬ s.Lawful L

theorem loses_of_run {π α : Type} [DecidableEq π] {L : AnalysisLane π α}
    {as : List (CaseAction (Fin 2) α)} (i : Fin 2)
    (h : ((Case.machine (Fin 2) L).run (undelivered (Fin 2) π) as).map (Case.lost L i) = some true) :
    Loses L as := by
  obtain ⟨s, hs, hlost⟩ := Option.map_eq_some_iff.1 h
  exact ⟨s, hs, Case.not_lawful_of_lost hlost⟩

/-- **The law fails** in the rejection lane where the publish fails, and while a request that has
recorded its timeout is about to publish it; in the DLT lane where a consumer dies between the two,
and where the server's budget runs out. -/
theorem failures_lost :
    Loses rejectionLane (timedOutRun ++ [.routes 0 (.does (.proceeds false))]) ∧
    Loses rejectionLane (timedOutRun ++ [.routes 1 (.does .reads)]) ∧
    Loses dltLane deadConsumerRun ∧ Loses dltLane outOfBudgetRun :=
  ⟨loses_of_run 0 (by decide), loses_of_run 1 (by decide), loses_of_run 1 (by decide),
    loses_of_run 0 (by decide)⟩

/-- What a run is checked against to be dependable: nothing fails, and no one dies. -/
def careful {ι : Type*} : CaseAction ι RejectionAct → Bool
  | .consumes _ (.publishes ok) | .routes _ (.does (.proceeds ok)) => ok
  | .consumes _ .dies | .routes _ (.does .dies) => false
  | _ => true

theorem dependable_of_careful {ι : Type*} {s : Case ι RoutePhase} {a : CaseAction ι RejectionAct}
    (h : careful a = true) : s.Dependable Rejection.Dependable a := by
  unfold Case.Dependable
  split
  · exact h
  · cases h
  · intro d _ p _
    unfold Rejection.Dependable
    split
    · exact h
    · exact h
    · cases h
    · cases h
    · cases h
    · trivial
  · trivial

/-- A timeout that the server records and publishes keeps the law. -/
theorem timedOut_lawful : ∃ s : Case (Fin 2) RoutePhase, s.published = true ∧
    (s.Lawful rejectionLane ∨ ∃ i, s.Owed Rejection.Owes i) := by
  obtain ⟨s, hs, hpublished⟩ := Machine.exists_reach_runWhere
    (M := Case.machine (Fin 2) rejectionLane) (c := fun _ => careful)
    (fun _ _ => dependable_of_careful) (fresh_undelivered _ _)
    (timedOutRun ++ [.routes 0 (.does (.proceeds true))]) (·.published) (by decide)
  exact ⟨s, hpublished, (lawful_or_owed (Fin 2)).1 s hs⟩

end DeadLetters

end ResidentCrm
