import ResidentCrm.Storage.TerminalRace

/-!
# Which orders keep a protected verdict

In a run whose steps all come in time, the files agree whenever no writer is between its two writes
and no protected verdict is replaced by the other actor's unprotected one (`Race.kept_of_inTime`).
What the condition leaves to the code is carried by `Inv`: a packet whose verdict the consumer has
recorded is not opened again (`Inv.opening`), and the guard lets no casebook through over a verdict
that the consumer had begun to write (`Inv.passed`). The order in which the guard comes too early is
`Race.late_result_over_timeout`.
-/

namespace ResidentCrm

namespace Storage

namespace Race

def timeoutEntry : Entry := ⟨.failedTimeout, .consumer⟩

def stubEntry : Entry := ⟨.inProgress, .api⟩

/-- Who has written what. -/
structure Inv (s : Race) : Prop where
  /-- Before the API saves a casebook, `casebook.json` is as the consumer left it. -/
  verdict : Early s.api → s.consumer.Wrote → s.files.casebook = some timeoutEntry
  untouched : Early s.api → ¬ s.consumer.Wrote → ¬ s.Begun
  /-- What `alreadyProcessed` achieves. -/
  opening : s.api = .opening → s.consumer.Wrote → s.ConsumerBetween
  /-- From the stub to the guard, `status.json` carries the stub or the consumer's verdict. -/
  stubbed : Stubbed s.api → s.files.status = some stubEntry ∨ s.files.status = some timeoutEntry
  /-- What the guard achieves. -/
  passed : s.Passed → ¬ s.consumer.Wrote
  apart : s.consumer ≠ .recorded → ∀ e ∈ s.files.status, e.author ≠ .consumer
  /-- Between the writes of the API, `casebook.json` is its own; or the consumer's, which is then
  between its own writes or has recorded the same. -/
  api : ∀ w, s.api = .savingStatus w → w.Checked ∧
    (s.files.casebook = some ⟨w.writes, .api⟩ ∨
      s.files.casebook = some timeoutEntry ∧ (s.ConsumerBetween ∨ w = .timeout))
  finish : ∀ v, s.api = .savingStatus (.finish v) → s.consumer.Wrote →
    s.ConsumerBetween ∧ s.files.casebook = some timeoutEntry
  /-- Between the writes of the consumer, `casebook.json` carries its verdict, or is the API's,
  which is then between its own. -/
  consumer : s.ConsumerBetween → s.statusIn .casebook = some .failedTimeout ∨
    ∃ w, s.api = .savingStatus w ∧ s.files.casebook = some ⟨w.writes, .api⟩
  /-- The files agree whenever no writer is between its two writes. -/
  settled : s.Settled

theorem wrote_of_between {s : Race} (h : s.ConsumerBetween) : s.consumer.Wrote := by
  rw [h]
  trivial

theorem not_wrote_ne_recorded {c : ConsumerPhase} (h : ¬ c.Wrote) : c ≠ .recorded := by
  rintro rfl
  exact h trivial

theorem early_of_stubbed {p : ApiPhase} (h : Stubbed p) : Early p := by
  cases p with
  | running | guardStatus v | guardCasebook v => trivial
  | _ => exact h.elim

theorem not_between_of_early {s : Race} (h : Early s.api) : ¬ s.ApiBetween := by
  rintro ⟨w, hw⟩
  rw [hw] at h
  exact h

theorem settled_of_between {s : Race} (h : s.ApiBetween ∨ s.ConsumerBetween) : s.Settled :=
  fun _ ha hc => absurd h (not_or.2 ⟨ha, hc⟩)

theorem settled_of_moves {s t : Race} (hS : s.Settled) (hf : t.files = s.files)
    (ha : s.ApiBetween → t.ApiBetween) (hc : s.ConsumerBetween → t.ConsumerBetween) :
    t.Settled := by
  unfold Settled Begun Agree statusIn at hS ⊢
  rw [hf]
  exact fun hb h₁ h₂ => hS hb (mt ha h₁) (mt hc h₂)

theorem inv_initial {s : Race} (h : Initial s) : Inv s where
  verdict _ hw := by simp [h.2.1, ConsumerPhase.Wrote] at hw
  untouched _ _ := by
    rintro ⟨e, he, hne⟩
    exact hne (h.2.2 .casebook e he)
  opening hp := by simp [h.1] at hp
  stubbed hp := by simp [h.1, Stubbed] at hp
  passed := by
    rintro ⟨v, hv⟩
    simp [h.1] at hv
  apart _ e he := by
    rw [h.2.2 .status e he]
    decide
  api w hw := by simp [h.1] at hw
  finish v hv := by simp [h.1] at hv
  consumer hc := by simp [h.2.1, ConsumerBetween] at hc
  settled := by
    rintro ⟨e, he, hne⟩
    exact absurd (h.2.2 .casebook e he) hne

/-- The API is past the guard, and not between its writes. -/
theorem inv_of_past {s : Race} (hp : ¬ s.ApiBetween) (hearly : ¬ Early s.api)
    (hapart : s.consumer ≠ .recorded → ∀ e ∈ s.files.status, e.author ≠ .consumer)
    (hconsumer : s.ConsumerBetween → s.statusIn .casebook = some .failedTimeout)
    (hsettled : s.Settled) : Inv s where
  verdict h := absurd h hearly
  untouched h := absurd h hearly
  opening h := absurd (by simp [h, Early]) hearly
  stubbed h := absurd (early_of_stubbed h) hearly
  passed := by
    rintro ⟨v, h⟩
    exact absurd (by simp [h, Early]) hearly
  apart := hapart
  api w hw := absurd ⟨w, hw⟩ hp
  finish v hv := absurd ⟨_, hv⟩ hp
  consumer hc := .inl (hconsumer hc)
  settled := hsettled

section Steps

variable {s : Race} (hI : s.Inv)
include hI

theorem Inv.opens (h : s.api = .received) (hnew : s.alreadyProcessed = false) :
    Inv { s with api := .opening } := by
  have hearly : Early s.api := by simp [h, Early]
  -- A verdict of the consumer would be terminal and not redeliverable.
  have hnot : ¬ s.consumer.Wrote := by
    intro hwrote
    rw [alreadyProcessed, reads, statusIn, Files.load, hI.verdict hearly hwrote] at hnew
    exact absurd hnew (by decide)
  exact {
    verdict := fun _ => hI.verdict hearly
    untouched := fun _ => hI.untouched hearly
    opening := fun _ hwrote => absurd hwrote hnot
    stubbed := False.elim
    passed := by
      rintro ⟨v, hv⟩
      cases hv
    apart := hI.apart
    api := by
      intro w hw
      cases hw
    finish := by
      intro v hv
      cases hv
    consumer := fun hc => absurd (wrote_of_between hc) hnot
    settled := settled_of_moves hI.settled rfl
      (fun hb => absurd hb (not_between_of_early hearly)) id }

theorem Inv.stubs (h : s.api = .opening) :
    Inv { s with files := s.files.save stubEntry .status, api := .running } := by
  have hearly : Early s.api := by simp [h, Early]
  refine ⟨fun _ => hI.verdict hearly, fun _ => hI.untouched hearly, ?_, fun _ => .inl rfl, ?_, ?_,
    ?_, ?_, ?_, ?_⟩
  · intro hopen
    cases hopen
  · rintro ⟨v, hv⟩
    cases hv
  · rintro hc e ⟨⟩
    decide
  · intro w hw
    cases hw
  · intro v hv
    cases hv
  · intro hc
    refine (hI.consumer hc).imp_right ?_
    rintro ⟨w, hw, -⟩
    exact absurd ⟨w, hw⟩ (not_between_of_early hearly)
  · -- Either nobody has saved a casebook, or the consumer is between its writes.
    intro hbegun _ hbetween
    by_cases hwrote : s.consumer.Wrote
    · exact absurd (hI.opening h hwrote) hbetween
    · exact absurd hbegun (hI.untouched hearly hwrote)

theorem Inv.guards {p : ApiPhase} (h : Stubbed s.api) (hp : Stubbed p) :
    Inv { s with api := p } := by
  have hearly := early_of_stubbed h
  have hbetween := not_between_of_early hearly
  have hne : ∀ w, p ≠ .savingStatus w ∧ p ≠ .savingCasebook w ∧ p ≠ .opening := by
    intro w
    refine ⟨?_, ?_, ?_⟩ <;> rintro rfl <;> exact hp
  exact {
    verdict := fun _ => hI.verdict hearly
    untouched := fun _ => hI.untouched hearly
    opening := fun hopen => absurd hopen (hne .timeout).2.2
    stubbed := fun _ => hI.stubbed h
    passed := fun ⟨_, hv⟩ => absurd hv (hne _).2.1
    apart := hI.apart
    api := fun w hw => absurd hw (hne w).1
    finish := fun v hv => absurd hv (hne _).1
    consumer := fun hc => (hI.consumer hc).imp_right fun ⟨w, hw, _⟩ => absurd ⟨w, hw⟩ hbetween
    settled := settled_of_moves hI.settled rfl (fun hb => absurd hb hbetween) id }

/-- **What the guard lets through is over no verdict of the consumer.** -/
theorem Inv.not_wrote_of_passedBy {v : Status} (h : s.PassedBy v) : ¬ s.consumer.Wrote := by
  intro hwrote
  rcases h with ⟨hv, hterminal, hread⟩ | ⟨hv, hread⟩
  · -- `status.json` is terminal, so it is not the stub.
    rcases hI.stubbed (by simp [hv, Stubbed]) with hst | hst
    · rw [reads, statusIn, Files.load, hst] at hterminal
      exact absurd hterminal (by decide)
    · rw [reads, statusIn, Files.load, hst] at hread
      exact absurd hread (by decide)
  · rw [reads, statusIn, Files.load, hI.verdict (by simp [hv, Early]) hwrote] at hread
    exact absurd hread (by decide)

theorem Inv.passes {v : Status} (h : s.PassedBy v) :
    Inv { s with api := .savingCasebook (.finish v) } := by
  have hnot := hI.not_wrote_of_passedBy h
  have hearly : Early s.api := by
    rcases h with h | h <;> simp [h.1, Early]
  exact {
    verdict := fun _ => hI.verdict hearly
    untouched := fun _ => hI.untouched hearly
    opening := by
      intro hopen
      cases hopen
    stubbed := False.elim
    passed := fun _ => hnot
    apart := hI.apart
    api := by
      intro w hw
      cases hw
    finish := by
      intro v' hv
      cases hv
    consumer := fun hc => absurd (wrote_of_between hc) hnot
    settled := settled_of_moves hI.settled rfl
      (fun hb => absurd hb (not_between_of_early hearly)) id }

theorem Inv.moves {p : ApiPhase} (hs : ¬ s.ApiBetween) (hp : ∀ w, p ≠ .savingStatus w)
    (hearly : ¬ Early p) : Inv { s with api := p } := by
  refine inv_of_past (fun ⟨w, hw⟩ => hp w hw) hearly hI.apart (fun hc => ?_) ?_
  · exact (hI.consumer hc).resolve_right fun ⟨w, hw, _⟩ => hs ⟨w, hw⟩
  · exact settled_of_moves hI.settled rfl (fun hb => absurd hb hs) id

theorem Inv.saves {w : Way} (h : s.api = .savingCasebook w) (hw : w.Checked) :
    Inv { s with files := s.files.save ⟨w.writes, .api⟩ .casebook, api := .savingStatus w } := by
  refine ⟨False.elim, False.elim, nofun, False.elim, (fun ⟨_, hv⟩ => nomatch hv), hI.apart, ?_, ?_,
    ?_, settled_of_between (.inl ⟨w, rfl⟩)⟩
  · rintro _ ⟨⟩
    exact ⟨hw, .inl rfl⟩
  · rintro v ⟨⟩
    exact fun hwrote => absurd hwrote (hI.passed ⟨v, h⟩)
  · exact fun _ => .inr ⟨w, rfl, rfl⟩

/-- What overtook the API is the consumer's verdict. -/
theorem Inv.casebook_of_overtaken (h : s.Overtaken .api) :
    s.files.casebook = some timeoutEntry := by
  obtain ⟨⟨w, hw⟩, -, e, he, hne⟩ := h
  refine ((hI.api w hw).2.resolve_left fun hcasebook => hne ?_).1
  rw [hcasebook, Option.mem_some_iff] at he
  rw [← he]

theorem Inv.saved {w : Way} (h : s.api = .savingStatus w) (htime : s.InTime (.apiSaves true)) :
    Inv { s with files := s.files.save ⟨w.writes, .api⟩ .status, api := onSaved w } := by
  have hpast : ¬ Early (onSaved w) ∧ ∀ w', onSaved w ≠ .savingStatus w' := by
    rcases onSaved_eq w with hp | hp <;> rw [hp] <;> simp [Early]
  have hown : s.statusIn .casebook = some w.writes ∨ s.ConsumerBetween := by
    rcases (hI.api w h).2 with hcasebook | ⟨hcasebook, hbetween | rfl⟩
    · exact .inl (by rw [statusIn, Files.load, hcasebook]; rfl)
    · exact .inr hbetween
    · exact .inl (by rw [statusIn, Files.load, hcasebook]; rfl)
  refine inv_of_past (not_exists.2 hpast.2) hpast.1 ?_ (fun hc => ?_) ?_
  · rintro - e ⟨⟩ hauthor
    cases hauthor
  · rcases htime ⟨w, h⟩ with hover | ⟨-, hsame⟩
    · rw [statusIn, Files.load, Files.save, hI.casebook_of_overtaken hover]
      rfl
    · -- Both record a timeout.
      obtain rfl : w = .timeout := by simpa [h] using hsame ⟨w, h⟩ hc
      rw [statusIn, Files.load, Files.save]
      rcases (hI.api _ h).2 with hcasebook | ⟨hcasebook, -⟩ <;> rw [hcasebook] <;> rfl
  · exact fun _ _ hc => hown.resolve_right hc

/-- The API stops between its writes: the consumer's are the ones that count. -/
theorem Inv.leaves {p : ApiPhase} (hp : p = .ended ∨ p = .savingCasebook .failed)
    (hover : s.Overtaken .api) : Inv { s with api := p } := by
  have hpast : ¬ Early p ∧ ∀ w, p ≠ .savingStatus w := by
    rcases hp with rfl | rfl <;> simp [Early]
  refine inv_of_past (not_exists.2 hpast.2) hpast.1 hI.apart (fun _ => ?_) ?_
  · rw [statusIn, Files.load, hI.casebook_of_overtaken hover]
    rfl
  · exact settled_of_between (.inr hover.2.1)

theorem Inv.consumerMoves {c : ConsumerPhase} (hs : ¬ s.consumer.Wrote) (hc : ¬ c.Wrote) :
    Inv { s with consumer := c } where
  verdict _ hwrote := absurd hwrote hc
  untouched hearly _ := hI.untouched hearly hs
  opening _ hwrote := absurd hwrote hc
  stubbed := hI.stubbed
  passed _ := hc
  apart _ := hI.apart (not_wrote_ne_recorded hs)
  api w hw := by
    refine (hI.api w hw).imp_right (Or.imp_right (And.imp_right (Or.imp_left fun hb => ?_)))
    exact absurd (wrote_of_between hb) hs
  finish _ _ hwrote := absurd hwrote hc
  consumer hb := absurd (wrote_of_between hb) hc
  settled := settled_of_moves hI.settled rfl id fun hb => absurd (wrote_of_between hb) hs

theorem Inv.consumerSaves (h : s.consumer = .savingCasebook) (htime : ¬ s.Passed) :
    Inv { s with files := s.files.save timeoutEntry .casebook, consumer := .savingStatus } where
  verdict _ _ := rfl
  untouched _ hnot := absurd trivial hnot
  opening _ _ := rfl
  stubbed := hI.stubbed
  passed hp := absurd hp htime
  apart _ := hI.apart (by simp [h])
  api w hw := ⟨(hI.api w hw).1, .inr ⟨rfl, .inl rfl⟩⟩
  finish _ _ _ := ⟨rfl, rfl⟩
  consumer _ := .inl rfl
  settled := settled_of_between (.inr rfl)

/-- Where the consumer was not overtaken, its casebook stands. -/
theorem Inv.api_of_overtaken (h : s.Overtaken .consumer) :
    ∃ w, s.api = .savingStatus w ∧ s.files.casebook = some ⟨w.writes, .api⟩ := by
  obtain ⟨⟨w, hw⟩, -, e, he, hne⟩ := h
  refine ⟨w, hw, (hI.api w hw).2.resolve_right fun ⟨hcasebook, _⟩ => hne ?_⟩
  rw [hcasebook, Option.mem_some_iff] at he
  rw [← he]
  rfl

theorem Inv.consumerRecords (h : s.ConsumerBetween) (hopening : s.api ≠ .opening)
    (htime : s.Leaves .consumer true) :
    Inv { s with files := s.files.save timeoutEntry .status, consumer := .recorded } := by
  have hwrote := wrote_of_between h
  -- The API, between its writes as well, overtook it or records the same.
  have hapi : ∀ w, s.api = .savingStatus w →
      s.files.casebook = some ⟨w.writes, .api⟩ ∨ w = .timeout := by
    intro w hw
    rcases htime with hover | ⟨-, hsame⟩
    · obtain ⟨w', hw', hcasebook⟩ := hI.api_of_overtaken hover
      obtain rfl : w = w' := by simpa [hw] using hw'
      exact .inl hcasebook
    · exact .inr (by simpa [hw] using hsame ⟨w, hw⟩ h)
  refine ⟨fun hearly _ => hI.verdict hearly hwrote, fun _ hnot => absurd trivial hnot,
    fun hopen => absurd hopen hopening, fun _ => .inr rfl, fun hp => absurd hwrote (hI.passed hp),
    fun hne => absurd rfl hne, fun w hw => ⟨(hI.api w hw).1, ?_⟩, fun v hv _ => ?_, nofun, ?_⟩
  · rcases (hI.api w hw).2 with hcasebook | ⟨hcasebook, -⟩
    · exact .inl hcasebook
    · exact (hapi w hw).imp_right fun htimeout => ⟨hcasebook, .inr htimeout⟩
  · rcases hapi _ hv with hcasebook | htimeout
    · rw [(hI.finish v hv hwrote).2] at hcasebook
      cases hcasebook
    · cases htimeout
  · intro _ hapi _
    exact (hI.consumer h).resolve_right fun ⟨w, hw, _⟩ => hapi ⟨w, hw⟩

theorem Inv.consumerTears (h : s.ConsumerBetween) (hover : s.Overtaken .consumer) :
    Inv { s with consumer := .torn } := by
  have hwrote := wrote_of_between h
  obtain ⟨w, hw, hcasebook⟩ := hI.api_of_overtaken hover
  refine ⟨fun hearly _ => hI.verdict hearly hwrote, fun _ hnot => absurd trivial hnot,
    (fun hopen => nomatch hw.symm.trans hopen), hI.stubbed, fun hp => absurd hwrote (hI.passed hp),
    fun _ => hI.apart (by simp [show s.consumer = _ from h]), fun w' hw' => ?_, fun v hv _ => ?_,
    nofun, settled_of_between (.inl ⟨w, hw⟩)⟩
  · obtain rfl : w = w' := by simpa [hw] using hw'
    exact ⟨(hI.api w hw').1, .inl hcasebook⟩
  · rw [(hI.finish v hv hwrote).2] at hcasebook
    simp [timeoutEntry] at hcasebook

theorem Inv.steps {t : Race} {a : RaceAction} (ha : s.InTime a) (h : s.Steps a t) : t.Inv := by
  cases h with
  | opens h hnew => exact hI.opens h hnew
  | stubs h => exact hI.stubs h
  | guards h hp => exact hI.guards h hp
  | passes h => exact hI.passes h
  | moves hs hp hearly => exact hI.moves hs hp hearly
  | saves h hw => exact hI.saves h hw
  | saved h => exact hI.saved h ha
  | @leaves _ w _ h hp hact =>
    have hleaves : s.Leaves .api false := by
      rcases hact with rfl | rfl <;> exact ha ⟨w, h⟩
    exact hI.leaves hp (hleaves.resolve_right fun hok => nomatch hok.1)
  | consumerMoves hs hc => exact hI.consumerMoves hs hc
  | consumerSaves h => exact hI.consumerSaves h (ha.1 h rfl)
  | consumerRecords h => exact hI.consumerRecords h (ha.2 h).1 (ha.2 h).2
  | consumerTears h => exact hI.consumerTears h ((ha.2 h).2.resolve_right fun hok => nomatch hok.1)

/-! ## No verdict is replaced -/

omit hI in
theorem kept_of_files {t : Race} (h : t.files = s.files) : s.Kept t := by
  intro f e he hp e' he' hne
  rw [h, Option.mem_def.1 he] at he'
  obtain rfl : e = e' := by simpa using he'
  rcases hne with ⟨h₁, h₂⟩ | ⟨h₁, h₂⟩ <;> simp [h₁] at h₂

omit hI in
theorem kept_of_save {t : Race} (e : Entry) (f : File) (h : t.files = s.files.save e f)
    (hs : ∀ e' ∈ s.files.load f, e'.status.Protected →
      (e'.author = .api ∧ e.author = .consumer ∨ e'.author = .consumer ∧ e.author = .api) →
        e.status.Protected) : s.Kept t := by
  intro g e₀ he₀ hp e₁ he₁ hne
  rw [h] at he₁
  by_cases hg : g = f
  · subst hg
    obtain rfl : e = e₁ := by cases g <;> simpa [Files.load, Files.save] using he₁
    exact hs e₀ he₀ hp hne
  · have hsame : (s.files.save e f).load g = s.files.load g := by
      cases f <;> cases g <;> first | rfl | exact absurd rfl hg
    rw [hsame, Option.mem_def.1 he₀] at he₁
    obtain rfl : e₀ = e₁ := by simpa using he₁
    rcases hne with ⟨h₁, h₂⟩ | ⟨h₁, h₂⟩ <;> simp [h₁] at h₂

/-- The stub replaces no verdict: the consumer has not recorded one. -/
theorem Inv.kept_stub (h : s.api = .opening) {t : Race}
    (ht : t.files = s.files.save stubEntry .status) : s.Kept t := by
  refine kept_of_save stubEntry .status ht fun e he _ hne => ?_
  rcases hne with ⟨-, hauthor⟩ | ⟨hauthor, -⟩
  · cases hauthor
  · refine absurd hauthor (hI.apart (fun hrecorded => ?_) e he)
    have hbetween := hI.opening h (by simp [hrecorded, ConsumerPhase.Wrote])
    exact absurd (hrecorded.symm.trans hbetween) (by decide)

/-- Nor does a finished casebook: the consumer has not begun. -/
theorem Inv.kept_save {w : Way} (h : s.api = .savingCasebook w) {t : Race}
    (ht : t.files = s.files.save ⟨w.writes, .api⟩ .casebook) : s.Kept t := by
  refine kept_of_save _ .casebook ht fun e he _ hne => ?_
  rcases w.protected_or_finish with hp | ⟨v, rfl⟩
  · exact hp
  · have hbegun := hI.untouched (by simp [h, Early]) (hI.passed ⟨v, h⟩)
    refine absurd ⟨e, he, ?_⟩ hbegun
    rcases hne with ⟨hauthor, -⟩ | ⟨hauthor, -⟩ <;> simp [hauthor]

theorem Inv.kept_saved {w : Way} (h : s.api = .savingStatus w) {t : Race}
    (ht : t.files = s.files.save ⟨w.writes, .api⟩ .status) : s.Kept t := by
  refine kept_of_save _ .status ht fun e he _ hne => ?_
  rcases w.protected_or_finish with hp | ⟨v, rfl⟩
  · exact hp
  rcases hne with ⟨-, hauthor⟩ | ⟨hauthor, -⟩
  · cases hauthor
  · refine absurd hauthor (hI.apart (fun hrecorded => ?_) e he)
    have hbetween := (hI.finish v h (by simp [hrecorded, ConsumerPhase.Wrote])).1
    exact absurd (hrecorded.symm.trans hbetween) (by decide)

theorem Inv.kept {t : Race} {a : RaceAction} (h : s.Steps a t) : s.Kept t := by
  cases h with
  | stubs h => exact hI.kept_stub h rfl
  | saves h _ => exact hI.kept_save h rfl
  | saved h => exact hI.kept_saved h rfl
  | consumerSaves _ => exact kept_of_save timeoutEntry .casebook rfl fun _ _ _ _ => by decide
  | consumerRecords _ => exact kept_of_save timeoutEntry .status rfl fun _ _ _ _ => by decide
  | opens _ _ | guards _ _ | passes _ | moves _ _ _ | leaves _ _ _ | consumerMoves _ _
  | consumerTears _ => exact kept_of_files rfl

end Steps

theorem inv_of_reach {s : Race} (hs : machine.Reach InTime s) : s.Inv :=
  hs.invariant (fun _ => inv_initial) fun _ _ _ hI ha ht => hI.steps ha (steps_of_step ht)

/-- **Protected verdicts and agreement, over whole runs that come in time.** -/
theorem kept_of_inTime {s : Race} (hs : machine.Reach InTime s) :
    s.Settled ∧ ∀ a t, s.step a = some t → s.Kept t :=
  ⟨(inv_of_reach hs).settled, fun _ _ ht => (inv_of_reach hs).kept (steps_of_step ht)⟩

def fresh : Race where
  files := ⟨none, none⟩
  api := .received
  consumer := .waiting

theorem initial_fresh : Initial fresh :=
  ⟨rfl, rfl, fun f e he => by cases f <;> cases he⟩

/-- The consumer gives up while the guard is reading: the late result is discarded. -/
theorem kept_of_inTime_discarded : ∃ s, machine.Reach InTime s ∧
    s.api = .ended ∧ s.files = ⟨some timeoutEntry, some timeoutEntry⟩ ∧
    s.Settled ∧ ∀ a t, s.step a = some t → s.Kept t := by
  obtain ⟨s, hs, hp⟩ := machine.exists_reach_runWhere (C := InTime)
    (c := fun s a => decide (s.InTime a)) (fun _ _ => of_decide_eq_true) initial_fresh
    [.apiOpens, .apiStubs true, .graphReturns .rejected, .apiGuards, .consumerTimesOut,
      .consumerSaves true, .apiGuards, .consumerSaves true]
    (fun s => decide (s.api = .ended ∧ s.files = ⟨some timeoutEntry, some timeoutEntry⟩))
    (by decide)
  obtain ⟨hended, hfiles⟩ := of_decide_eq_true hp
  exact ⟨s, hs, hended, hfiles, kept_of_inTime hs⟩

/-- The guard has read both files when the consumer gives up: the finished casebook is saved over
the recorded timeout. -/
theorem late_result_over_timeout : ∃ s t, machine.Reachable s ∧
    s.step (.apiSaves true) = some t ∧
    s.files = ⟨some timeoutEntry, some timeoutEntry⟩ ∧
    t.files.casebook = some ⟨.rejected, .api⟩ ∧ ¬ s.Kept t := by
  obtain ⟨s, hs, hp⟩ := machine.exists_reachable_run initial_fresh
    [.apiOpens, .apiStubs true, .graphReturns .rejected, .apiGuards, .apiGuards,
      .consumerTimesOut, .consumerSaves true, .consumerSaves true]
    (fun s => decide (s.files = ⟨some timeoutEntry, some timeoutEntry⟩ ∧
      s.api = .savingCasebook (.finish .rejected))) (by decide)
  obtain ⟨hf, ha⟩ := of_decide_eq_true hp
  have hstep : s.step (.apiSaves true) = some
      { s with
        files := s.files.save ⟨.rejected, .api⟩ .casebook
        api := .savingStatus (.finish .rejected) } := by
    have hck : (Way.finish .rejected).Checked := by decide
    simp only [step, apiSaves, ha, hck, and_self, if_true]
    rfl
  refine ⟨s, _, hs, hstep, hf, rfl, fun hk => ?_⟩
  have hcb : s.files.load .casebook = some timeoutEntry := by rw [hf]; rfl
  have hprot := hk .casebook _ hcb (by decide) ⟨.rejected, .api⟩ rfl (.inr ⟨rfl, rfl⟩)
  exact absurd hprot (by decide)

end Race

end Storage

end ResidentCrm
