import ResidentCrm.Dlt.PerCode
import ResidentCrm.Lib.Machine
import Mathlib.Logic.Function.Basic

/-!
# Findings served to other packets

The findings of one group: agent runs end and cache theirs or not, and later occurrences take a
finding the group has kept and are answered with it. With withholding enabled a finding that names
its packet is kept out of the cache exactly where one of the names is plain, a UUID or a number with
no full stop next to it (`cached_iff`), and then no occurrence is answered with one
(`not_served_of_plain`).
-/

namespace ResidentCrm.Dlt

open PerCode

section

variable (letter : Char → Bool)

/-- A UUID, or twelve digits or more, stands in a text of the finding as a word of its own. -/
def FindingTexts.Identifies (f : FindingTexts) : Prop :=
  ∃ field ∈ fields f, NamesPacket letter field.2

/-- One of them is a UUID, or has no full stop next to it. -/
def FindingTexts.IdentifiesPlainly (f : FindingTexts) : Prop :=
  ∃ field ∈ fields f, NamesPlainly letter field.2

/-- The run's logs disagree with its trace, or its finding names the packet plainly if at all. -/
def AgentRun.Plain (a : AgentRun) : Prop :=
  a.texts.Identifies letter → a.corroboration.isDiscrepancy = true ∨
    a.texts.IdentifiesPlainly letter

end

/-! ## The group -/

structure SharedGroup (ι : Type*) where
  /-- The findings that were cached; what the group's record serves is one of them. -/
  cached : List FindingTexts
  /-- What the analysis of an occurrence has read of the record. -/
  held : ι → Option FindingTexts
  served : List FindingTexts

inductive SharedAction (ι : Type*) where
  | finishes (a : AgentRun)
  | loads (i : ι) (f : FindingTexts)
  | answers (i : ι)

namespace SharedGroup

variable {ι : Type*} [DecidableEq ι]

/-- The finding of the run is the group's recommendation from now on. -/
def cachedBy (letter : Char → Bool) (phrasing : Phrasing) (a : AgentRun) : Bool :=
  a.recommendationState letter phrasing true = .draft

def step (letter : Char → Bool) (phrasing : Phrasing) (s : SharedGroup ι) :
    SharedAction ι → Option (SharedGroup ι)
  | .finishes a =>
    some (if cachedBy letter phrasing a then { s with cached := a.texts :: s.cached } else s)
  | .loads i f =>
    if f ∈ s.cached then some { s with held := Function.update s.held i (some f) } else none
  | .answers i => (s.held i).map fun f => { s with served := f :: s.served }

def machine (ι : Type*) [DecidableEq ι] (letter : Char → Bool) (phrasing : Phrasing) :
    Machine (SharedGroup ι) (SharedAction ι) where
  start s := s.cached = [] ∧ (∀ i, s.held i = none) ∧ s.served = []
  step := step letter phrasing

/-- Every agent run that ends is plain. -/
def PlainRuns (letter : Char → Bool) (_ : SharedGroup ι) : SharedAction ι → Prop
  | .finishes a => a.Plain letter
  | .loads _ _ | .answers _ => True

end SharedGroup

/-! ## What is cached -/

section

variable {letter : Char → Bool} {phrasing : Phrasing}

/-- A finding is a draft of its group where neither the verdict nor a plain name keeps it out. -/
theorem recommendationState_eq_draft {a : AgentRun} :
    a.recommendationState letter phrasing true = .draft ↔ a.corroboration.isDiscrepancy = false ∧
      ¬ a.texts.IdentifiesPlainly letter ∧ a.stored = true := by
  unfold AgentRun.recommendationState
  split
  · next h => simp [h]
  · next h =>
    split
    · next hwithheld =>
      simp [FindingTexts.IdentifiesPlainly, withhold_iff.1 hwithheld]
    · next hwithheld =>
      have hplain : ¬ a.texts.IdentifiesPlainly letter := fun hplain =>
        hwithheld (withhold_iff.2 hplain)
      split <;> simp [*]

/-- **A finding that names its packet is kept out of the cache**, whatever comes of the write, where
the run is plain. -/
theorem cached_iff (f : FindingTexts) (c : Corroboration) :
    (f.Identifies letter → ∀ stored, (AgentRun.mk f c stored).recommendationState letter phrasing
      true ≠ .draft) ↔ ∀ stored, (AgentRun.mk f c stored).Plain letter := by
  simp only [ne_eq, recommendationState_eq_draft, AgentRun.Plain]
  constructor
  · intro h stored hnames
    by_contra hplain
    obtain ⟨hdiscrepancy, hplain⟩ := not_or.1 hplain
    exact h hnames true ⟨by simpa using hdiscrepancy, hplain, rfl⟩
  · rintro h hnames stored ⟨hdiscrepancy, hplain, -⟩
    rcases h stored hnames with h | h
    · rw [hdiscrepancy] at h
      cases h
    · exact hplain h

/-! ## What is served -/

/-- What is cached, held and served names no packet. -/
structure SharedGroup.Anonymous {ι : Type*} (letter : Char → Bool) (s : SharedGroup ι) : Prop where
  cached : ∀ f ∈ s.cached, ¬ f.Identifies letter
  held : ∀ i, ∀ f ∈ s.held i, ¬ f.Identifies letter
  served : ∀ f ∈ s.served, ¬ f.Identifies letter

variable {ι : Type*} [DecidableEq ι] {s t : SharedGroup ι}

theorem SharedGroup.Anonymous.step {a : SharedAction ι} (hs : s.Anonymous letter)
    (hc : s.PlainRuns letter a) (h : s.step letter phrasing a = some t) : t.Anonymous letter := by
  cases a with
  | finishes a =>
    obtain rfl := Option.some.inj h
    split
    · next hcached =>
      have hdraft : a.recommendationState letter phrasing true = .draft := by
        simpa [SharedGroup.cachedBy] using hcached
      obtain ⟨hdiscrepancy, hplain, -⟩ := recommendationState_eq_draft.1 hdraft
      have hnames : ¬ a.texts.Identifies letter := fun hnames =>
        (hc hnames).elim (fun h => absurd h (by simp [hdiscrepancy])) hplain
      exact ⟨List.forall_mem_cons.2 ⟨hnames, hs.cached⟩, hs.held, hs.served⟩
    · exact hs
  | loads i f =>
    simp only [SharedGroup.step] at h
    split at h
    · next hmem =>
      cases h
      refine ⟨hs.cached, fun j g hg => ?_, hs.served⟩
      dsimp only at hg
      by_cases hji : j = i
      · subst hji
        rw [Function.update_self] at hg
        exact Option.some.inj hg ▸ hs.cached f hmem
      · rw [Function.update_of_ne hji] at hg
        exact hs.held j g hg
    · cases h
  | answers i =>
    obtain ⟨f, hf, rfl⟩ := Option.map_eq_some_iff.1 h
    exact ⟨hs.cached, hs.held, List.forall_mem_cons.2 ⟨hs.held i f hf, hs.served⟩⟩

theorem not_served_of_plain (hs : (SharedGroup.machine ι letter phrasing).Reach
    (SharedGroup.PlainRuns letter) s) : s.Anonymous letter := by
  refine hs.invariant (fun s hs => ?_) fun s a t hI hc h => hI.step hc h
  obtain ⟨hcached, hheld, hserved⟩ := hs
  refine ⟨by simp [hcached], fun i f hf => ?_, by simp [hserved]⟩
  rw [hheld] at hf
  cases hf

end

/-- **Findings that name their packet stay with it**: an agent's finding is kept out of the cache,
with withholding enabled, exactly where its run is plain, and in runs of plain ones no occurrence is
answered with a finding that names a packet. -/
theorem named_findings_withheld (letter : Char → Bool) (phrasing : PerCode.Phrasing) (ι : Type*)
    [DecidableEq ι] :
    (∀ f c, (f.Identifies letter → ∀ stored, (AgentRun.mk f c stored).recommendationState letter
        phrasing true ≠ .draft) ↔ ∀ stored, (AgentRun.mk f c stored).Plain letter) ∧
    ∀ s, (SharedGroup.machine ι letter phrasing).Reach (SharedGroup.PlainRuns letter) s →
      ∀ f ∈ s.served, ¬ f.Identifies letter :=
  ⟨cached_iff, fun _ hs => (not_served_of_plain hs).served⟩

/-! ## A name in a sentence, and at its end -/

def stoppedNumber : FindingTexts where
  narrative := "The check failed for the packet 123456789012.".toList
  recommendation := "Correct it.".toList

def plainNumber : FindingTexts where
  narrative := "The check failed for 123456789012, twice.".toList
  recommendation := "Correct it.".toList

def unnamed : FindingTexts where
  narrative := "It failed.".toList
  recommendation := "Correct it.".toList

def noPhrasing : PerCode.Phrasing := ⟨fun _ _ => none, fun _ _ => none⟩

def emptyGroup (ι : Type*) : SharedGroup ι := ⟨[], fun _ => none, []⟩

theorem stoppedNumber_identifies : stoppedNumber.Identifies fun _ => false :=
  ⟨("narrative".toList, stoppedNumber.narrative), .head _,
    "The check failed for the packet ".toList, "123456789012".toList, ".".toList, by decide,
    ⟨by decide, by decide⟩, .inr (by decide)⟩

/-- **A number that ends its sentence is served** to a later occurrence. -/
theorem stopped_number_served : stoppedNumber.Identifies (fun _ => false) ∧
    ∃ s, (SharedGroup.machine (Fin 1) (fun _ => false) noPhrasing).Reachable s ∧
      stoppedNumber ∈ s.served := by
  obtain ⟨s, hs, hserved⟩ := Machine.exists_reachable_run
    (M := SharedGroup.machine (Fin 1) (fun _ => false) noPhrasing)
    (s := emptyGroup (Fin 1)) ⟨rfl, fun _ => rfl, rfl⟩
    [.finishes ⟨stoppedNumber, .corroborated, true⟩, .loads 0 stoppedNumber, .answers 0]
    (fun s => stoppedNumber ∈ s.served) (by decide +kernel)
  exact ⟨stoppedNumber_identifies, s, hs, by simpa using hserved⟩

theorem plainNumber_plain (stored : Bool) :
    (AgentRun.mk plainNumber .corroborated stored).Plain fun _ => false :=
  fun _ => .inr ⟨("narrative".toList, plainNumber.narrative), .head _,
    "The check failed for ".toList, "123456789012".toList, ", twice.".toList, by decide,
    ⟨by decide, by decide⟩, .inr ⟨by decide, by unfold BesideStop; decide⟩⟩

/-- A text of less than twelve characters names no packet. -/
theorem not_namesPacket_of_short {letter : Char → Bool} {s : Text} (h : s.length < 12) :
    ¬ NamesPacket letter s := by
  rintro ⟨a, w, b, rfl, -, hw | hw⟩
  · have := length_of_isUuid hw
    simp only [List.length_append] at h
    omega
  · rw [isLongNumber, Bool.and_eq_true, decide_eq_true_eq] at hw
    simp only [List.length_append] at h
    omega

theorem unnamed_plain : (AgentRun.mk unnamed .corroborated true).Plain fun _ => false := by
  have hshort : ∀ field ∈ fields unnamed, field.2.length < 12 := by decide
  rintro ⟨field, hfield, hnames⟩
  exact absurd hnames (not_namesPacket_of_short (hshort field hfield))

/-- A finding with no name is served, and one with a plain name is not. -/
theorem unnamed_served : ∃ s : SharedGroup (Fin 1), (unnamed ∈ s.served ∧ plainNumber ∉ s.served) ∧
    ∀ f ∈ s.served, ¬ f.Identifies fun _ => false := by
  obtain ⟨s, hs, hserved⟩ := Machine.exists_reach_runWhere
    (M := SharedGroup.machine (Fin 1) (fun _ => false) noPhrasing)
    (C := SharedGroup.PlainRuns fun _ => false)
    (c := fun _ a => match a with
      | .finishes a => a = ⟨unnamed, .corroborated, true⟩ ∨ a = ⟨plainNumber, .corroborated, true⟩
      | .loads _ _ | .answers _ => true)
    (fun s a h => by
      cases a with
      | finishes a =>
        rcases of_decide_eq_true h with rfl | rfl
        · exact unnamed_plain
        · exact plainNumber_plain true
      | loads | answers => trivial)
    (s := emptyGroup (Fin 1)) ⟨rfl, fun _ => rfl, rfl⟩
    [.finishes ⟨unnamed, .corroborated, true⟩, .finishes ⟨plainNumber, .corroborated, true⟩,
      .loads 0 unnamed, .answers 0]
    (fun s => unnamed ∈ s.served ∧ plainNumber ∉ s.served) (by decide +kernel)
  exact ⟨s, of_decide_eq_true hserved,
    (named_findings_withheld (fun _ => false) noPhrasing (Fin 1)).2 s hs⟩

end ResidentCrm.Dlt
