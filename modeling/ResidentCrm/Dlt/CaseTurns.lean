import ResidentCrm.Dlt.CaseRuns

/-!
# One run of a case acts

A run makes its two checks once, before minutes of analysis, and its late-result guard comes after
the replay and the parking. `Orderly` says when that is enough, of the requests, the consumers, the
claims and the passes: requests of one record that do not overlap are kept apart by the terminal
check (`Turns.acted`), those of one case under several refIds by the claim check (`Turns.claim`),
and what the guard reads is clear of a verdict where the run has acted (`Turns.clear`). So the runs
that act, `CaseRuns.actors`, are one a case (`Turns.sole`), and none is discarded (`Turns.past`).
-/

namespace ResidentCrm.Dlt

open Storage

variable {ι κ R : Type*}

namespace RunPhase

/-- The file a check is about to read. -/
def toCheck : RunPhase R → Option File
  | checking file => some file
  | _ => none

def toSave : RunPhase R → Option (File × Status)
  | saving file v => some (file, v)
  | _ => none

/-- The terminal check let the run through, and `casebook.json` is not saved. -/
def Open : RunPhase R → Prop
  | readingClaim | analysing | replaying .. | parking .. | guarding .. | saving .casebook _ => True
  | _ => False

instance : DecidablePred (Open (R := R))
  | readingClaim | analysing | replaying .. | parking .. | guarding .. | saving .casebook _ =>
    .isTrue trivial
  | checking _ | saving .status _ | discarded | ended => .isFalse id

/-- The claim check let the run through, and it is not at its end. -/
def LetThrough : RunPhase R → Prop
  | analysing | replaying .. | parking .. | guarding .. | saving .. => True
  | _ => False

instance : DecidablePred (LetThrough (R := R))
  | analysing | replaying .. | parking .. | guarding .. | saving .. => .isTrue trivial
  | checking _ | readingClaim | discarded | ended => .isFalse id

/-- A run that has acted is past its replay, and has not been discarded. -/
def Past : RunPhase R → Prop
  | parking .. | guarding .. | saving .. | ended => True
  | _ => False

end RunPhase

namespace PassPhase

variable {γ : Type*}

def toMark : PassPhase R γ → Option (Entry R γ)
  | marking e _ => some e
  | _ => none

def inHand : PassPhase R γ → List (Entry R γ)
  | waiting => []
  | working es => es
  | marking e es => e :: es

end PassPhase

namespace Sender

def run? : Sender ι κ → Option ι
  | run i => some i
  | pass _ => none

def pass? : Sender ι κ → Option κ
  | run _ => none
  | pass p => some p

end Sender

namespace CaseRuns

/-- The runs that have queued a replay or parked their packet. -/
def actors (s : CaseRuns ι κ R) : List ι :=
  s.queued.filterMap (·.sender.run?) ++ s.entries.map Entry.basis

theorem mem_actors {s : CaseRuns ι κ R} {i : ι} : i ∈ s.actors ↔
    (∃ r ∈ s.queued, i ∈ r.sender.run?) ∨ ∃ e ∈ s.entries, e.basis = i := by
  simp only [actors, List.mem_append, List.mem_filterMap, List.mem_map, Option.mem_def]

theorem run_mem_actors {s : CaseRuns ι κ R} {i : ι} {r : QueuedReplay ι κ} (hr : r ∈ s.queued)
    (hi : i ∈ r.sender.run?) : i ∈ s.actors :=
  mem_actors.2 (.inl ⟨r, hr, hi⟩)

theorem basis_mem_actors {s : CaseRuns ι κ R} {e : Entry R ι} (he : e ∈ s.entries) :
    e.basis ∈ s.actors :=
  mem_actors.2 (.inr ⟨e, he, rfl⟩)

end CaseRuns

/-! ## In order -/

namespace CaseConfig

variable (c : CaseConfig ι κ R)

/-- All requests of the run's case come under one key. -/
def OneRecord (i : ι) : Prop := ∀ j, c.caseId j = c.caseId i → c.key j = c.key i

section

variable [LinearOrder R]

/-- The finding is to be replayed, or to be parked. -/
def acts (i : ι) (f : Finding R) (check : CodeCheck) : Bool :=
  c.sends i f check || (c.request i).park.enabled &&
    wouldReplayButForTheVersion (c.request i).replay f (c.request i).record.refId check

/-- A run that sends a replay parks nothing: the check that parks withholds. -/
theorem parked_of_sends {c : CaseConfig ι κ R} {i : ι} {f : Finding R} {check : CodeCheck}
    (h : c.sends i f check = true) (store : ParkStore) (now : R) (entries : List (Entry R ι)) :
    c.parked i f check store now entries = entries := by
  have hveto := (AutoReplay.decide_iff.1 h).2
  have hwould : wouldReplayButForTheVersion (c.request i).replay f (c.request i).record.refId
      check = false := by
    rw [Bool.eq_false_iff]
    intro hwould
    obtain ⟨hverdict, hgates, -⟩ := wouldReplayButForTheVersion_iff.1 hwould
    exact (AutoReplay.codeCheckVeto_eq_none.1 hveto hgates).2 hverdict
  unfold parked maybePark
  split
  · rfl
  · split <;> rfl

theorem parked_cases (c : CaseConfig ι κ R) (i : ι) (f : Finding R) (check : CodeCheck)
    (store : ParkStore) (now : R) (entries : List (Entry R ι)) :
    c.parked i f check store now entries = entries ∨
      c.acts i f check = true ∧ present (c.request i).record.refId = true ∧
        ∃ e, c.parked i f check store now entries = entries ++ [e] ∧ e.status = .parked ∧
          (∀ e' ∈ entries, e'.caseId ≠ e.caseId) ∧ e.caseId = c.caseId i ∧ e.basis = i := by
  unfold parked maybePark
  split
  · exact .inl rfl
  next henabled =>
  split
  · exact .inl rfl
  next hpresent =>
  split
  · exact .inl rfl
  next hwould =>
  rw [Bool.not_eq_false] at henabled hpresent hwould
  rcases park_cases (c.request i).park.cap store entries (c.caseId i) (c.request i).record.refId
    check now i with hsame | ⟨e, he, hparked, hfresh, hcase, hbasis⟩
  · exact .inl hsame
  · refine .inr ⟨?_, hpresent, e, he, hparked, hfresh, hcase, hbasis⟩
    rw [acts, henabled, hwould, Bool.and_true, Bool.or_true]

/-- The run has come to a replay or a park, and its guard has not read both files. -/
def Awaits (s : CaseRuns ι κ R) (i : ι) : Prop :=
  match s.runs i with
  | .replaying f check | .parking f check => c.acts i f check = true
  | .guarding _ _ => i ∈ s.actors
  | _ => False

end

/-- No casebook under the key, and no run let through that is still to save one. -/
def Alone (s : CaseRuns ι κ R) (i : ι) : Prop :=
  s.terminalIn (c.key i) .casebook true = none →
    ∀ j, j ≠ i → c.key j = c.key i → ¬ (s.runs j).Open

end CaseConfig

variable [LinearOrder R] (c : CaseConfig ι κ R)

/-- What is asked of the requests, the consumers, the claims and the passes.

A check misses no terminal status, and finds none only where no other run of the record is under
way. Where a case comes under several keys its claim can be read, and is not given to another
delivery than that of a run it let through. A run comes to a replay or a park before its consumer
gives up, which then waits for the guard. A run that acted has its casebook saved. And passes, but
dry runs, come one after another and mark what they queued. -/
def Orderly (s : CaseRuns ι κ R) : CaseAct ι κ R → Prop
  | .checks i reads => ∀ file ∈ (s.runs i).toCheck,
      (s.terminalIn (c.key i) file true ≠ none → reads = true) ∧ (file = .casebook → c.Alone s i)
  | .readsClaim i reads =>
    c.OneRecord i ∨ reads = true ∧ (s.holder (c.caseId i)).filter (· ≠ []) ≠ none
  | .finishes i f check => c.acts i f check = true →
      ∀ j, c.key j = c.key i → ¬ (s.consumers j).Wrote
  | .saves i ok => i ∈ s.actors → ∀ x ∈ (s.runs i).toSave, x.1 = .casebook → ok = true
  | .claims caseId delivery => ∀ i, c.caseId i = caseId →
      (s.runs i).LetThrough ∨ i ∈ s.actors →
        c.OneRecord i ∨ (c.request i).record.delivery = delivery
  | .consumerSaves i ok => ok = true → ∀ j, c.key j = c.key i → ¬ c.Awaits s j
  | .lists p => (c.pass p).release.dryRun = false →
      ∀ q, q ≠ p → (c.pass q).release.dryRun = false → (s.passes q).inHand = []
  | .marks p => ∀ e ∈ (s.passes p).toMark, e.status = .released →
      (c.pass p).release.marks e.caseId = true
  | _ => True

/-! ## The invariant -/

namespace CaseRuns

/-- `casebook.json` under the key has a terminal status. -/
def Done (s : CaseRuns ι κ R) (key : Text) : Prop := ∃ v ∈ (s.files key).casebook, v.Terminal

/-- A run that has acted. -/
structure Acted (s : CaseRuns ι κ R) (i : ι) : Prop where
  done : (s.runs i).Open ∨ s.Done (c.key i)
  claim : c.OneRecord i ∨ s.holder (c.caseId i) = some (c.request i).record.delivery
  present : present (c.request i).record.refId = true
  sole : ∀ j ∈ s.actors, c.caseId j = c.caseId i → j = i
  past : (s.runs i).Past
  /-- A run does not both queue a replay and park. -/
  sent : ∀ f check, s.runs i = .parking f check → c.sends i f check = true

structure Turn (s : CaseRuns ι κ R) (i : ι) : Prop where
  terminal : ∀ file v, s.runs i = .guarding file v ∨ s.runs i = .saving file v → v.Terminal
  saved : ∀ v, s.runs i = .saving .status v → s.Done (c.key i)
  wrote : (s.consumers i).Wrote → s.Done (c.key i)
  /-- `status.json` had no terminal status when it was read. -/
  checked : s.runs i = .checking .casebook →
    (∀ v ∈ (s.files (c.key i)).status, ¬ v.Terminal) ∨ s.Done (c.key i)
  /-- What the terminal check achieves: no other run of the record is under way, and none of them
  has acted. -/
  alone : (s.runs i).Open → ∀ j, j ≠ i → c.key j = c.key i →
    ¬ (s.runs j).Open ∧ ∀ v, s.runs j ≠ .saving .status v
  acted : (s.runs i).Open → ∀ j ∈ s.actors, c.key j = c.key i → j = i
  /-- Before its analysis ends, only consumers can have recorded a verdict. -/
  clean : s.runs i = .readingClaim ∨ s.runs i = .analysing →
    (∀ file, ∀ v ∈ (s.files (c.key i)).load file, ¬ v.Terminal) ∨
      ∃ j, c.key j = c.key i ∧ (s.consumers j).Wrote
  clear : c.Awaits s i → ∀ file, ∀ v ∈ (s.files (c.key i)).load file, ¬ v.Protected
  /-- What the claim check achieves. -/
  claim : (s.runs i).LetThrough →
    c.OneRecord i ∨ s.holder (c.caseId i) = some (c.request i).record.delivery
  acts : i ∈ s.actors → s.Acted c i

variable {c} {s t : CaseRuns ι κ R} {i j : ι}

theorem turn_fresh (h : s.Fresh) (i : ι) : s.Turn c i := by
  have hnone : s.actors = [] := by simp [actors, h.queued, h.entries]
  have hrun := h.runs i
  refine ⟨?_, ?_, ?_, ?_, ?_, ?_, ?_, ?_, ?_, ?_⟩
  · simp [hrun]
  · simp [hrun]
  · simp [h.consumers i, ConsumerPhase.Wrote]
  · simp [hrun]
  · simp [hrun, RunPhase.Open]
  · simp [hrun, RunPhase.Open]
  · simp [hrun]
  · simp [CaseConfig.Awaits, hrun]
  · simp [hrun, RunPhase.LetThrough]
  · simp [hnone]

theorem open_of_awaits (h : c.Awaits s i) : (s.runs i).Open := by
  unfold CaseConfig.Awaits at h
  split at h
  · next hphase =>
    rw [hphase]
    trivial
  · next hphase =>
    rw [hphase]
    trivial
  · next hphase =>
    rw [hphase]
    trivial
  · exact h.elim

theorem Turn.not_mem (hT : s.Turn c i) (h : ¬ (s.runs i).Past) : i ∉ s.actors :=
  fun hi => h (hT.acts hi).past

/-! ## What a run's step keeps -/

/-- The run goes to the phase `p`, and may be one that acted. -/
structure Moves [DecidableEq ι] (s t : CaseRuns ι κ R) (i : ι) (p : RunPhase R) : Prop where
  runs : t.runs = Function.update s.runs i p
  consumers : t.consumers = s.consumers
  files : t.files = s.files
  holder : t.holder = s.holder
  actors : ∀ j ∈ t.actors, j ∈ s.actors ∨ j = i ∧ (s.runs i).Open

section Moves

variable [DecidableEq ι] {p : RunPhase R} (hm : s.Moves t i p)
include hm

omit [LinearOrder R] in
theorem Moves.run : t.runs i = p := by rw [hm.runs, Function.update_self]

omit [LinearOrder R] in
theorem Moves.other (h : j ≠ i) : t.runs j = s.runs j := by rw [hm.runs, Function.update_of_ne h]

omit [LinearOrder R] in
theorem Moves.done (key : Text) : t.Done key ↔ s.Done key := by rw [Done, Done, hm.files]

/-- The others' turns are as they were. -/
theorem Moves.turns (hT : ∀ j, s.Turn c j) (hsaving : ∀ v, p = .saving .status v → (s.runs i).Open)
    (hi : t.Turn c i) : ∀ j, t.Turn c j := by
  intro j
  by_cases hji : j = i
  · exact hji ▸ hi
  have hj := hT j
  have hmem : j ∈ t.actors → j ∈ s.actors :=
    fun h => (hm.actors j h).resolve_right fun h => hji h.1
  refine ⟨?_, ?_, ?_, ?_, ?_, ?_, ?_, ?_, ?_, ?_⟩
  · rw [hm.other hji]
    exact hj.terminal
  · rw [hm.other hji, hm.done]
    exact hj.saved
  · rw [hm.consumers, hm.done]
    exact hj.wrote
  · rw [hm.other hji, hm.files, hm.done]
    exact hj.checked
  · intro hopen k hkj hkey
    rw [hm.other hji] at hopen
    by_cases hki : k = i
    · subst hki
      rw [hm.run]
      refine ⟨fun hp => ?_, fun v hv => ?_⟩
      · refine absurd hopen ?_
        rw [← hm.other hji]
        exact (hi.alone (hm.run ▸ hp) j (Ne.symm hkj) hkey.symm).1
      · exact (hj.alone hopen k hkj hkey).1 (hsaving v hv)
    · rw [hm.other hki]
      exact hj.alone hopen k hkj hkey
  · intro hopen k hk hkey
    rw [hm.other hji] at hopen
    rcases hm.actors k hk with hk | ⟨rfl, hk⟩
    · exact hj.acted hopen k hk hkey
    · exact absurd hk (hj.alone hopen k (Ne.symm hji) hkey).1
  · rw [hm.other hji, hm.files, hm.consumers]
    exact hj.clean
  · intro hawaits
    rw [hm.files]
    refine hj.clear ?_
    unfold CaseConfig.Awaits at hawaits ⊢
    rw [hm.other hji] at hawaits
    split at hawaits
    · exact hawaits
    · exact hawaits
    · exact hmem hawaits
    · exact hawaits
  · rw [hm.other hji, hm.holder]
    exact hj.claim
  · intro hmem'
    have hacted := hj.acts (hmem hmem')
    refine ⟨?_, ?_, hacted.present, ?_, ?_, ?_⟩
    · rw [hm.other hji, hm.done]
      exact hacted.done
    · rw [hm.holder]
      exact hacted.claim
    · intro k hk hcase
      rcases hm.actors k hk with hk | ⟨rfl, -⟩
      · exact hacted.sole k hk hcase
      · exact ((hi.acts hk).sole j hmem' hcase.symm).symm
    · rw [hm.other hji]
      exact hacted.past
    · rw [hm.other hji]
      exact hacted.sent

/-- A run that is not under way. -/
theorem Moves.turn_closed (hT : s.Turn c i) (hp : ¬ p.Open)
    (hterminal : ∀ file v, p = .guarding file v ∨ p = .saving file v → v.Terminal)
    (hsaved : ∀ v, p = .saving .status v → s.Done (c.key i))
    (hchecked : p = .checking .casebook →
      (∀ v ∈ (s.files (c.key i)).status, ¬ v.Terminal) ∨ s.Done (c.key i))
    (hclaim : p.LetThrough →
      c.OneRecord i ∨ s.holder (c.caseId i) = some (c.request i).record.delivery)
    (hacts : i ∈ t.actors → t.Acted c i) : t.Turn c i := by
  have hrun := hm.run
  exact {
    terminal := by rwa [hrun]
    saved := fun v h => (hm.done _).2 (hsaved v (hrun.symm.trans h))
    wrote := fun h => (hm.done _).2 (hT.wrote (by rwa [← hm.consumers]))
    checked := fun h => by
      rw [hm.files, hm.done]
      exact hchecked (hrun.symm.trans h)
    alone := fun h => absurd (hrun ▸ h) hp
    acted := fun h => absurd (hrun ▸ h) hp
    clean := fun h => by
      rw [hrun] at h
      rcases h with rfl | rfl <;> exact absurd trivial hp
    clear := fun h => absurd (hrun ▸ open_of_awaits h) hp
    claim := fun h => by
      rw [hm.holder]
      exact hclaim (hrun ▸ h)
    acts := hacts }

/-- A run at its end. -/
theorem Moves.turn_end (hT : s.Turn c i) (hend : p = .ended ∨ p = .discarded)
    (hacts : i ∈ t.actors → t.Acted c i) : t.Turn c i := by
  rcases hend with rfl | rfl <;>
    exact hm.turn_closed hT id (fun _ _ => nofun) (fun _ => nofun) nofun False.elim hacts

/-- A run comes through the terminal check: nothing is recorded, so who acted under its key is under
way, and nobody is. -/
theorem Moves.turn_entered (hT : s.Turn c i) (hp : p = .readingClaim)
    (hothers : ∀ j, s.Turn c j) (hundone : ¬ s.Done (c.key i))
    (halone : ∀ j, j ≠ i → c.key j = c.key i → ¬ (s.runs j).Open)
    (hclean : ∀ file, ∀ v ∈ (s.files (c.key i)).load file, ¬ v.Terminal)
    (hnot : i ∉ t.actors) : t.Turn c i := by
  subst hp
  have hrun := hm.run
  exact {
    terminal := fun file v h => by simp [hrun] at h
    saved := fun v h => by simp [hrun] at h
    wrote := fun h => (hm.done _).2 (hT.wrote (by rwa [← hm.consumers]))
    checked := fun h => by simp [hrun] at h
    alone := fun _ j hji hkey => by
      rw [hm.other hji]
      refine ⟨halone j hji hkey, fun v h => hundone ?_⟩
      rw [← hkey]
      exact (hothers j).saved v h
    acted := fun _ j hj hkey => by
      by_contra hji
      have hj' := (hm.actors j hj).resolve_right fun h => hji h.1
      rcases ((hothers j).acts hj').done with h | h
      · exact halone j hji hkey h
      · exact hundone (hkey ▸ h)
    clean := fun _ => .inl (by
      rw [hm.files]
      exact hclean)
    clear := fun h => by simp only [CaseConfig.Awaits, hrun] at h
    claim := fun h => by
      rw [hrun] at h
      exact h.elim
    acts := fun h => absurd h hnot }

/-- A run that is under way goes on. -/
theorem Moves.turn_open (hT : s.Turn c i) (hopen : (s.runs i).Open) (hp : p.Open)
    (hterminal : ∀ file v, p = .guarding file v ∨ p = .saving file v → v.Terminal)
    (hclean : p = .readingClaim ∨ p = .analysing → s.runs i = .readingClaim ∨ s.runs i = .analysing)
    (hclear : c.Awaits t i → ∀ file, ∀ v ∈ (s.files (c.key i)).load file, ¬ v.Protected)
    (hclaim : p.LetThrough →
      c.OneRecord i ∨ s.holder (c.caseId i) = some (c.request i).record.delivery)
    (hacts : i ∈ t.actors → t.Acted c i) : t.Turn c i := by
  have hrun := hm.run
  exact {
    terminal := by rwa [hrun]
    saved := fun v h => by
      rw [hrun.symm.trans h] at hp
      exact hp.elim
    wrote := fun h => (hm.done _).2 (hT.wrote (by rwa [← hm.consumers]))
    checked := fun h => by
      rw [hrun.symm.trans h] at hp
      exact hp.elim
    alone := fun _ j hji hkey => by
      rw [hm.other hji]
      exact hT.alone hopen j hji hkey
    acted := fun _ j hj hkey => (hm.actors j hj).elim (fun hj => hT.acted hopen j hj hkey) (·.1)
    clean := fun h => by
      rw [hrun] at h
      rw [hm.files, hm.consumers]
      exact hT.clean (hclean h)
    clear := fun h => by
      rw [hm.files]
      exact hclear h
    claim := fun h => by
      rw [hm.holder]
      exact hclaim (hrun ▸ h)
    acts := hacts }

/-- One that had acted before goes on, or is at its end with its casebook saved. -/
theorem Moves.acted (hT : s.Turn c i) (hi : i ∈ s.actors) (hactors : t.actors = s.actors)
    (hpast : p.Past) (hdone : p.Open ∨ s.Done (c.key i)) (hsent : ∀ f check, p ≠ .parking f check) :
    t.Acted c i := by
  have hacted := hT.acts hi
  refine ⟨?_, ?_, hacted.present, ?_, ?_, ?_⟩
  · rw [hm.run, hm.done]
    exact hdone
  · rw [hm.holder]
    exact hacted.claim
  · rw [hactors]
    exact hacted.sole
  · rw [hm.run]
    exact hpast
  · intro f check h
    exact absurd (hm.run.symm.trans h) (hsent f check)

end Moves

omit [LinearOrder R] in
theorem moves_setRun [DecidableEq ι] (s : CaseRuns ι κ R) (i : ι) (p : RunPhase R) :
    s.Moves (s.setRun i p) i p :=
  ⟨rfl, rfl, rfl, rfl, fun _ => .inl⟩

/-! ## What a save keeps -/

omit [LinearOrder R] in
theorem done_saveIn {key key' : Text} {v : Status} {file : File} (hv : v.Terminal)
    (h : s.Done key') : (s.saveIn key v file).Done key' := by
  by_cases hkey : key' = key
  · subst hkey
    cases file with
    | casebook => exact ⟨v, by simp [saveIn, Files.save], hv⟩
    | status => simpa [Done, saveIn, Files.save] using h
  · simpa [Done, saveIn, hkey] using h

/-- A terminal status is saved, by a run that is the only one of its record under way, or by a
consumer. -/
theorem turns_saveIn (hT : ∀ j, s.Turn c j) {key : Text} {v : Status} {file : File}
    {consumers : ι → ConsumerPhase} (hv : v.Terminal) (hdone : file = .status → s.Done key)
    (hmono : ∀ j, (s.consumers j).Wrote → (consumers j).Wrote)
    (hwrote : ∀ j, (consumers j).Wrote →
      (s.consumers j).Wrote ∨ c.key j = key ∧ file = .casebook)
    (hclean : ∀ j, c.key j = key → s.runs j = .readingClaim ∨ s.runs j = .analysing →
      ∃ k, c.key k = c.key j ∧ (consumers k).Wrote)
    (hclear : ∀ j, c.key j = key → ¬ c.Awaits s j) :
    ∀ j, CaseRuns.Turn c { s.saveIn key v file with consumers := consumers } j := by
  intro j
  have hj := hT j
  have hnow : file = .casebook → (s.saveIn key v file).Done key := by
    rintro rfl
    exact ⟨v, by simp [saveIn, Files.save], hv⟩
  refine ⟨hj.terminal, fun v' h => done_saveIn hv (hj.saved v' h), fun h => ?_, fun h => ?_,
    hj.alone, hj.acted, fun h => ?_, fun h => ?_, hj.claim, fun h => ?_⟩
  · rcases hwrote j h with h | ⟨hkey, hfile⟩
    · exact done_saveIn hv (hj.wrote h)
    · exact hkey ▸ hnow hfile
  · by_cases hkey : c.key j = key
    · subst hkey
      refine .inr ?_
      cases file with
      | casebook => exact hnow rfl
      | status => exact done_saveIn hv (hdone rfl)
    · refine (hj.checked h).imp (fun h => ?_) (done_saveIn hv)
      simpa [saveIn, hkey] using h
  · by_cases hkey : c.key j = key
    · exact .inr (hclean j hkey h)
    · refine (hj.clean h).imp (fun h => ?_) fun ⟨k, hk, hw⟩ => ⟨k, hk, hmono k hw⟩
      simpa [saveIn, hkey] using h
  · by_cases hkey : c.key j = key
    · exact absurd h (hclear j hkey)
    · have hkept := hj.clear h
      simpa [saveIn, hkey] using hkept
  · have hacted := hj.acts h
    exact ⟨hacted.done.imp_right (done_saveIn hv), hacted.claim, hacted.present, hacted.sole,
      hacted.past, hacted.sent⟩

theorem turns_setConsumer [DecidableEq ι] (hT : ∀ j, s.Turn c j) {p : ConsumerPhase}
    (hp : p.Wrote ↔ (s.consumers i).Wrote) : ∀ j, (s.setConsumer i p).Turn c j := by
  have hsame : ∀ j, ((s.setConsumer i p).consumers j).Wrote ↔ (s.consumers j).Wrote := by
    intro j
    by_cases hji : j = i
    · subst hji
      simpa [setConsumer] using hp
    · simp [setConsumer, hji]
  intro j
  have hj := hT j
  refine ⟨hj.terminal, hj.saved, fun h => hj.wrote ((hsame j).1 h), hj.checked, hj.alone, hj.acted,
    fun h => ?_, hj.clear, hj.claim, fun h => ?_⟩
  · exact (hj.clean h).imp_right fun ⟨k, hk, hw⟩ => ⟨k, hk, (hsame k).2 hw⟩
  · have hacted := hj.acts h
    exact ⟨hacted.done, hacted.claim, hacted.present, hacted.sole, hacted.past, hacted.sent⟩

/-- A step of a pass: the runs, the files and the claims are as they were. -/
theorem turns_of_pass (hT : ∀ j, s.Turn c j) (hruns : t.runs = s.runs)
    (hconsumers : t.consumers = s.consumers) (hfiles : t.files = s.files)
    (hholder : t.holder = s.holder) (hactors : t.actors = s.actors) : ∀ j, t.Turn c j := by
  obtain ⟨files, holder, runs, consumers, passes, entries, queued⟩ := t
  obtain rfl := hruns
  obtain rfl := hconsumers
  obtain rfl := hfiles
  obtain rfl := hholder
  intro j
  have hj := hT j
  refine ⟨hj.terminal, hj.saved, hj.wrote, hj.checked, hj.alone, ?_, hj.clean, fun h => ?_, hj.claim,
    fun h => ?_⟩
  · rw [hactors]
    exact hj.acted
  · refine hj.clear ?_
    unfold CaseConfig.Awaits at h ⊢
    rw [hactors] at h
    exact h
  · rw [hactors] at h
    have hacted := hj.acts h
    refine ⟨hacted.done, hacted.claim, hacted.present, ?_, hacted.past, hacted.sent⟩
    rw [hactors]
    exact hacted.sole

/-! ## One step -/

omit [LinearOrder R] in
theorem not_terminal_of_terminalIn {key : Text} {file : File} (h : s.terminalIn key file true = none) :
    ∀ v ∈ (s.files key).load file, ¬ v.Terminal := by
  intro v hv hterminal
  rw [terminalIn, if_pos rfl, Option.filter_eq_none_iff] at h
  exact h v hv (by simpa using hterminal)

theorem terminal_of_protected {v : Status} (h : v.Protected) : v.Terminal := by
  revert h
  cases v <;> decide

omit [LinearOrder R] in
theorem terminal_terminalStatusOf (f : Finding R) : (terminalStatusOf f).Terminal := by
  unfold terminalStatusOf
  split <;> decide

/-- The claim check keeps the runs of a case to one record: where another run of the case has acted
it is this one. -/
theorem sole_of_open (hT : ∀ j, s.Turn c j) (hopen : (s.runs i).Open)
    (hclaim : c.OneRecord i ∨ s.holder (c.caseId i) = some (c.request i).record.delivery)
    (hpresent : present (c.request i).record.refId = true) :
    ∀ j ∈ s.actors, c.caseId j = c.caseId i → j = i := by
  intro j hj hcase
  have hacted := (hT j).acts hj
  refine (hT i).acted hopen j hj ?_
  rcases hclaim with hone | hholder
  · exact hone j hcase
  rcases hacted.claim with hone | hholder'
  · exact (hone i hcase.symm).symm
  -- Both deliveries hold the claim, so the refIds are one.
  have hdelivery : (c.request j).record.delivery = (c.request i).record.delivery := by
    rw [hcase] at hholder'
    exact Option.some.inj (hholder'.symm.trans hholder)
  have hsome : ∀ refId : Option Text, present refId = true →
      ∃ r, refId.filter (· ≠ []) = some r := by
    rintro (_ | r) h
    · cases h
    · exact ⟨r, by simpa [present] using h⟩
  obtain ⟨r, hr⟩ := hsome _ hpresent
  obtain ⟨r', hr'⟩ := hsome _ hacted.present
  rw [GroupStore.DltRecord.delivery, GroupStore.DltRecord.delivery, hr, hr'] at hdelivery
  obtain rfl : r' = r := hdelivery
  have hcase' : (c.request j).record.caseId = (c.request i).record.caseId := hcase
  rw [CaseConfig.key, CaseConfig.key, CaseConfig.caseId, CaseConfig.caseId, hcase',
    GroupStore.storageKey, GroupStore.storageKey, hr, hr']

omit [LinearOrder R] in
/-- A claim that can be read lets a run through for its holder alone. -/
theorem claimed_cases (s : CaseRuns ι κ R) (d : GroupStore.DltRecord) (reads : Bool) :
    s.claimed d reads = .ended ∨ s.claimed d reads = .analysing ∧
      (reads = true → ∀ h ∈ s.holder d.caseId, h ≠ [] → h = d.delivery) := by
  unfold claimed
  by_cases hheld : (if reads then s.holder d.caseId else none).any
      fun h => h ≠ [] ∧ h ≠ d.delivery
  · exact .inl (if_pos hheld)
  · refine .inr ⟨if_neg hheld, fun hreads h hh hne => ?_⟩
    rw [if_pos hreads, Option.mem_def.1 hh] at hheld
    by_contra hother
    exact hheld (by simp [hne, hother])

omit [LinearOrder R] in
theorem guarded_cases (s : CaseRuns ι κ R) (key : Text) (file : File) (v : Status) (reads : Bool) :
    (s.guarded key file v reads = .discarded ∧ ∃ w ∈ (s.files key).load file, w.Protected) ∨
      s.guarded key file v reads = .saving .casebook v ∨
      s.guarded key file v reads = .guarding .casebook v := by
  unfold guarded
  split
  · next w hw =>
    split
    · next hprotected =>
      unfold terminalIn at hw
      split at hw
      · exact .inl ⟨rfl, w, (Option.filter_eq_some_iff.1 hw).1, hprotected⟩
      · cases hw
    · exact .inr (.inl rfl)
  · exact .inr (.inr rfl)
  · exact .inr (.inl rfl)

section Steps

variable [DecidableEq ι] [DecidableEq κ] [Sub R] [Zero R]

theorem turns_checks (hT : ∀ j, s.Turn c j) {reads : Bool} (hC : Orderly c s (.checks i reads))
    (h : s.step c (.checks i reads) = some t) : ∀ j, t.Turn c j := by
  simp only [step] at h
  split at h
  swap
  · cases h
  next file hphase =>
  obtain rfl := Option.some.inj h
  obtain ⟨hreads, halone⟩ := hC file (by rw [hphase]; exact rfl)
  have hi := hT i
  have hnot : i ∉ s.actors := hi.not_mem (by simp [hphase, RunPhase.Past])
  -- A check that finds nothing has missed nothing.
  have hnone : s.terminalIn (c.key i) file reads = none →
      s.terminalIn (c.key i) file true = none := by
    intro hnone
    by_contra hne
    rw [hreads hne] at hnone
    exact hne hnone
  cases hfound : s.terminalIn (c.key i) file reads with
  | some v =>
    rw [show s.checked (c.key i) file reads = .ended by simp [checked, hfound]]
    have hm := s.moves_setRun i .ended
    exact hm.turns hT (fun _ => nofun) (hm.turn_end hi (.inl rfl) fun h => absurd h hnot)
  | none =>
    have hterminal := not_terminal_of_terminalIn (hnone hfound)
    cases file with
    | status =>
      rw [show s.checked (c.key i) .status reads = .checking .casebook by simp [checked, hfound]]
      have hm := s.moves_setRun i (.checking .casebook)
      refine hm.turns hT (fun _ => nofun) (hm.turn_closed hi id (fun _ _ => nofun) (fun _ => nofun)
        (fun _ => .inl hterminal) False.elim fun h => absurd h hnot)
    | casebook =>
      rw [show s.checked (c.key i) .casebook reads = .readingClaim by simp [checked, hfound]]
      have hundone : ¬ s.Done (c.key i) := fun ⟨v, hv, hv'⟩ => hterminal v hv hv'
      have hm := s.moves_setRun i .readingClaim
      have hclean : ∀ file, ∀ v ∈ (s.files (c.key i)).load file, ¬ v.Terminal
        | .status => (hi.checked hphase).resolve_right hundone
        | .casebook => hterminal
      exact hm.turns hT (fun _ => nofun) (hm.turn_entered hi rfl hT hundone
        (halone rfl (hnone hfound)) hclean hnot)

/-- The claim check ends the run, or finds its own delivery the holder. -/
theorem turns_readsClaim (hT : ∀ j, s.Turn c j) {reads : Bool}
    (hC : Orderly c s (.readsClaim i reads)) (h : s.step c (.readsClaim i reads) = some t) :
    ∀ j, t.Turn c j := by
  obtain ⟨hphase, ⟨⟩⟩ := Option.ite_none_right_eq_some.1 h
  have hi := hT i
  have hopen : (s.runs i).Open := by simp [hphase, RunPhase.Open]
  have hnot : i ∉ s.actors := hi.not_mem (by simp [hphase, RunPhase.Past])
  rcases s.claimed_cases (c.request i).record reads with hend | ⟨hthrough, hheld⟩
  · rw [hend]
    have hm := s.moves_setRun i .ended
    exact hm.turns hT (fun _ => nofun) (hm.turn_end hi (.inl rfl) fun h => absurd h hnot)
  rw [hthrough]
  have hm := s.moves_setRun i .analysing
  refine hm.turns hT (fun _ => nofun) (hm.turn_open hi hopen trivial (fun _ _ => nofun)
    (fun _ => .inl hphase) (fun h => ?_) (fun _ => ?_) fun h => absurd h hnot)
  · simp only [CaseConfig.Awaits, hm.run] at h
  · refine hC.imp_right fun ⟨hreads, hthere⟩ => ?_
    obtain ⟨holder, hholder⟩ := Option.ne_none_iff_exists'.1 hthere
    obtain ⟨hsome, hne⟩ := Option.filter_eq_some_iff.1 hholder
    rw [hsome, hheld hreads holder hsome (by simpa using hne)]

theorem turns_skips (hT : ∀ j, s.Turn c j) (h : s.step c (.skips i) = some t) : ∀ j, t.Turn c j := by
  obtain ⟨hphase, ⟨⟩⟩ := Option.ite_none_right_eq_some.1 h
  have hnot : i ∉ s.actors := (hT i).not_mem (by simp [hphase, RunPhase.Past])
  have hm := s.moves_setRun i .ended
  exact hm.turns hT (fun _ => nofun) (hm.turn_end (hT i) (.inl rfl) fun h => absurd h hnot)

/-- An analysis ends: where it comes to a replay or a park, no consumer has given up on it. -/
theorem turns_finishes (hT : ∀ j, s.Turn c j) {f : Finding R} {check : CodeCheck}
    (hC : Orderly c s (.finishes i f check)) (h : s.step c (.finishes i f check) = some t) :
    ∀ j, t.Turn c j := by
  obtain ⟨hphase, ⟨⟩⟩ := Option.ite_none_right_eq_some.1 h
  have hi := hT i
  have hnot : i ∉ s.actors := hi.not_mem (by simp [hphase, RunPhase.Past])
  have hm := s.moves_setRun i (.replaying f check)
  refine hm.turns hT (fun _ => nofun) (hm.turn_open hi (by simp [hphase, RunPhase.Open]) trivial
    (fun _ _ => nofun) nofun (fun h => ?_) (fun _ => hi.claim (by simp [hphase, RunPhase.LetThrough]))
    fun h => absurd h hnot)
  simp only [CaseConfig.Awaits, hm.run] at h
  rcases hi.clean (.inr hphase) with hclean | ⟨j, hkey, hwrote⟩
  · exact fun file v hv hprotected => hclean file v hv (terminal_of_protected hprotected)
  · exact absurd hwrote (hC h j hkey)

theorem turns_timesOut (hT : ∀ j, s.Turn c j) (h : s.step c (.timesOut i) = some t) :
    ∀ j, t.Turn c j := by
  obtain ⟨hphase, ⟨⟩⟩ := Option.ite_none_right_eq_some.1 h
  have hi := hT i
  have hnot : i ∉ s.actors := hi.not_mem (by simp [hphase, RunPhase.Past])
  have hm := s.moves_setRun i (.saving .casebook .failedTimeout)
  refine hm.turns hT (fun _ => nofun) (hm.turn_open hi (by simp [hphase, RunPhase.Open]) trivial
    (fun file v h => ?_) nofun (fun h => ?_)
    (fun _ => hi.claim (by simp [hphase, RunPhase.LetThrough])) fun h => absurd h hnot)
  · rcases h with h | h <;> cases h
    decide
  · simp only [CaseConfig.Awaits, hm.run] at h

theorem turns_replays (hT : ∀ j, s.Turn c j) {queues : Bool}
    (h : s.step c (.replays i queues) = some t) : ∀ j, t.Turn c j := by
  simp only [step] at h
  split at h
  swap
  · cases h
  next f check hphase =>
  have hi := hT i
  have hopen : (s.runs i).Open := by simp [hphase, RunPhase.Open]
  have hnot : i ∉ s.actors := hi.not_mem (by simp [hphase, RunPhase.Past])
  have hclaim := hi.claim (by simp [hphase, RunPhase.LetThrough])
  -- Who has acted after the step: this run, if its replay is queued.
  have hqueued : ∀ j ∈ t.actors, j ∈ s.actors ∨ j = i ∧ c.sends i f check = true := by
    obtain rfl := Option.some.inj h
    intro j hj
    rcases mem_actors.1 hj with ⟨r, hr, hj⟩ | ⟨e, he, rfl⟩
    · split at hr
      · next hsends =>
        rcases List.mem_append.1 hr with hr | hr
        · exact .inl (run_mem_actors hr hj)
        · obtain rfl := List.mem_singleton.1 hr
          rw [Bool.and_eq_true] at hsends
          exact .inr ⟨(Option.some.inj hj).symm, hsends.1⟩
      · exact .inl (run_mem_actors hr hj)
    · exact .inl (basis_mem_actors he)
  have hm : s.Moves t i (.parking f check) := by
    obtain rfl := Option.some.inj h
    exact ⟨rfl, rfl, rfl, rfl, fun j hj => (hqueued j hj).imp_right fun h => ⟨h.1, hopen⟩⟩
  refine hm.turns hT (fun _ => nofun) (hm.turn_open hi hopen trivial (fun _ _ => nofun) nofun
    (fun h => hi.clear ?_) (fun _ => hclaim) fun hmem => ?_)
  · simp only [CaseConfig.Awaits, hm.run, hphase] at h ⊢
    exact h
  have hsends := ((hqueued i hmem).resolve_left hnot).2
  have hpresent := (AutoReplay.decide_iff.1 hsends).1.refId
  exact {
    done := .inl (by rw [hm.run]; trivial)
    claim := by
      rw [hm.holder]
      exact hclaim
    present := hpresent
    sole := fun j hj hcase => (hqueued j hj).elim
      (fun hj => sole_of_open hT hopen hclaim hpresent j hj hcase) (·.1)
    past := by
      rw [hm.run]
      trivial
    sent := fun f' check' h => by
      obtain ⟨rfl, rfl⟩ : f = f' ∧ check = check' := by simpa [hm.run] using h
      exact hsends }

theorem turns_parks (hT : ∀ j, s.Turn c j) {store : ParkStore} {now : R}
    (h : s.step c (.parks i store now) = some t) : ∀ j, t.Turn c j := by
  simp only [step] at h
  split at h
  swap
  · cases h
  next f check hphase =>
  have hi := hT i
  have hopen : (s.runs i).Open := by simp [hphase, RunPhase.Open]
  have hclaim := hi.claim (by simp [hphase, RunPhase.LetThrough])
  -- Who has acted after the step: this run, if its packet is parked.
  have hparked : ∀ j ∈ t.actors, j ∈ s.actors ∨ j = i ∧ c.acts i f check = true ∧
      present (c.request i).record.refId = true := by
    obtain rfl := Option.some.inj h
    intro j hj
    rcases mem_actors.1 hj with ⟨r, hr, hj⟩ | ⟨e, he, rfl⟩
    · exact .inl (run_mem_actors hr hj)
    rcases c.parked_cases i f check store now s.entries with hsame | ⟨hacts, hpresent, e', hnew, -,
      -, -, hbasis⟩
    · rw [hsame] at he
      exact .inl (basis_mem_actors he)
    · rw [hnew] at he
      rcases List.mem_append.1 he with he | he
      · exact .inl (basis_mem_actors he)
      · rw [List.mem_singleton.1 he]
        exact .inr ⟨hbasis, hacts, hpresent⟩
  have hm : s.Moves t i (.guarding .status (terminalStatusOf f)) := by
    obtain rfl := Option.some.inj h
    exact ⟨rfl, rfl, rfl, rfl, fun j hj => (hparked j hj).imp_right fun h => ⟨h.1, hopen⟩⟩
  have hacts : i ∈ t.actors → c.acts i f check = true := by
    intro hmem
    rcases hparked i hmem with hmem | ⟨-, hacts, -⟩
    · rw [CaseConfig.acts, (hi.acts hmem).sent f check hphase, Bool.true_or]
    · exact hacts
  refine hm.turns hT (fun _ => nofun) (hm.turn_open hi hopen trivial (fun file v h => ?_) nofun
    (fun h => hi.clear ?_) (fun _ => hclaim) fun hmem => ?_)
  · rcases h with h | h <;> cases h
    exact terminal_terminalStatusOf f
  · simp only [CaseConfig.Awaits, hm.run, hphase] at h ⊢
    exact hacts h
  have hpresent : present (c.request i).record.refId = true := by
    rcases hparked i hmem with hmem | ⟨-, -, hpresent⟩
    · exact (hi.acts hmem).present
    · exact hpresent
  exact {
    done := .inl (by rw [hm.run]; trivial)
    claim := by
      rw [hm.holder]
      exact hclaim
    present := hpresent
    sole := fun j hj hcase => (hparked j hj).elim
      (fun hj => sole_of_open hT hopen hclaim hpresent j hj hcase) (·.1)
    past := by
      rw [hm.run]
      trivial
    sent := fun f' check' h => by simp [hm.run] at h }

/-- The guard lets a run through that has acted. -/
theorem turns_guards (hT : ∀ j, s.Turn c j) {reads : Bool} (h : s.step c (.guards i reads) = some t) :
    ∀ j, t.Turn c j := by
  simp only [step] at h
  split at h
  swap
  · cases h
  next file v hphase =>
  obtain rfl := Option.some.inj h
  have hi := hT i
  have hopen : (s.runs i).Open := by simp [hphase, RunPhase.Open]
  have hterminal := hi.terminal file v (.inl hphase)
  have hclaim := hi.claim (by simp [hphase, RunPhase.LetThrough])
  have hawaits : i ∈ s.actors → c.Awaits s i := fun hmem => by
    simpa only [CaseConfig.Awaits, hphase]
  rcases s.guarded_cases (c.key i) file v reads with ⟨hend, w, hw, hprotected⟩ | hsave | hnext
  · rw [hend]
    have hm := s.moves_setRun i .discarded
    refine hm.turns hT (fun _ => nofun) (hm.turn_end hi (.inr rfl) fun hmem => ?_)
    exact absurd hprotected (hi.clear (hawaits hmem) file w hw)
  · rw [hsave]
    have hm := s.moves_setRun i (.saving .casebook v)
    refine hm.turns hT (fun _ _ => hopen) (hm.turn_open hi hopen trivial (fun file' v' h => ?_) nofun
      (fun h => ?_) (fun _ => hclaim) fun hmem => ?_)
    · rcases h with h | h <;> cases h
      exact hterminal
    · simp only [CaseConfig.Awaits, hm.run] at h
    · exact hm.acted hi hmem rfl trivial (.inl trivial) fun _ _ => nofun
  · rw [hnext]
    have hm := s.moves_setRun i (.guarding .casebook v)
    refine hm.turns hT (fun _ => nofun) (hm.turn_open hi hopen trivial (fun file' v' h => ?_) nofun
      (fun h => hi.clear (hawaits ?_)) (fun _ => hclaim) fun hmem => ?_)
    · rcases h with h | h <;> cases h
      exact hterminal
    · simp only [CaseConfig.Awaits, hm.run] at h
      exact h
    · exact hm.acted hi hmem rfl trivial (.inl trivial) fun _ _ => nofun

/-- A casebook is saved: of its record, no other run is under way. -/
theorem turns_runSaves (hT : ∀ j, s.Turn c j) {ok : Bool} (hC : Orderly c s (.saves i ok))
    (h : s.step c (.saves i ok) = some t) : ∀ j, t.Turn c j := by
  simp only [step, runSaves] at h
  split at h
  swap
  · cases h
  next file v hphase =>
  have hi := hT i
  have hterminal := hi.terminal file v (.inr hphase)
  have hclaim := hi.claim (by simp [hphase, RunPhase.LetThrough])
  have hdone : file = .status → s.Done (c.key i) := by
    rintro rfl
    exact hi.saved v hphase
  split at h
  · next hok =>
    -- No run under way is under the key, but for this one.
    have hothers : ∀ j, c.key j = c.key i → (s.runs j).Open → j = i := by
      intro j hkey hopen
      by_contra hji
      obtain ⟨hclosed, hnot⟩ := (hT j).alone hopen i (Ne.symm hji) hkey.symm
      rw [hphase] at hclosed
      cases file with
      | casebook => exact hclosed trivial
      | status => exact hnot v hphase
    have hfresh : ∀ j, c.key j = c.key i →
        s.runs j = .readingClaim ∨ s.runs j = .analysing → ∃ k, c.key k = c.key j ∧
          (s.consumers k).Wrote := by
      intro j hkey hj
      obtain rfl := hothers j hkey (by rcases hj with hj | hj <;> simp [hj, RunPhase.Open])
      rw [hphase] at hj
      rcases hj with hj | hj <;> cases hj
    have hawaited : ∀ j, c.key j = c.key i → ¬ c.Awaits s j := by
      intro j hkey hj
      obtain rfl := hothers j hkey (open_of_awaits hj)
      simp only [CaseConfig.Awaits, hphase] at hj
    have hT' : ∀ j, CaseRuns.Turn c (s.saveIn (c.key i) v file) j :=
      turns_saveIn hT hterminal hdone (fun _ => id) (fun _ => .inl) hfresh hawaited
    have hdone' : CaseRuns.Done (s.saveIn (c.key i) v file) (c.key i) := by
      cases file with
      | casebook => exact ⟨v, by simp [saveIn, Files.save], hterminal⟩
      | status => exact done_saveIn hterminal (hdone rfl)
    obtain rfl := Option.some.inj h
    cases file with
    | casebook =>
      have hm := (s.saveIn (c.key i) v .casebook).moves_setRun i (.saving .status v)
      refine hm.turns hT' (fun _ _ => by simp [saveIn, hphase, RunPhase.Open])
        (hm.turn_closed (hT' i) id (fun file' v' h => ?_) (fun _ _ => hdone') nofun
          (fun _ => hclaim) fun hmem => ?_)
      · rcases h with h | h <;> cases h
        exact hterminal
      · exact hm.acted (hT' i) hmem rfl trivial (.inr hdone') fun _ _ => nofun
    | status =>
      have hm := (s.saveIn (c.key i) v .status).moves_setRun i .ended
      refine hm.turns hT' (fun _ => nofun) (hm.turn_end (hT' i) (.inl rfl) fun hmem => ?_)
      exact hm.acted (hT' i) hmem rfl trivial (.inr hdone') fun _ _ => nofun
  · next hok =>
    obtain rfl := Option.some.inj h
    have hm := s.moves_setRun i .ended
    refine hm.turns hT (fun _ => nofun) (hm.turn_end hi (.inl rfl) fun hmem => ?_)
    refine hm.acted hi hmem rfl trivial (.inr (hdone ?_)) fun _ _ => nofun
    cases file with
    | casebook => exact absurd (hC hmem ⟨.casebook, v⟩ (by rw [hphase]; exact rfl) rfl) hok
    | status => rfl

/-- A consumer gives up, and waits for the guard of a run that has come to a replay or a park. -/
theorem turns_consumerSaves (hT : ∀ j, s.Turn c j) {ok : Bool}
    (hC : Orderly c s (.consumerSaves i ok)) (h : s.step c (.consumerSaves i ok) = some t) :
    ∀ j, t.Turn c j := by
  simp only [step, CaseRuns.consumerSaves] at h
  split at h
  · next hphase =>
    obtain rfl := Option.some.inj h
    refine turns_saveIn hT (by decide) (fun h : File.casebook = .status => nomatch h)
      (fun j hj => ?_) (fun j hj => ?_) (fun j hkey _ => ⟨i, hkey.symm, ?_⟩) (hC rfl)
    · by_cases hji : j = i
      · subst hji
        simp [hphase, ConsumerPhase.Wrote] at hj
      · simpa [setConsumer, hji] using hj
    · by_cases hji : j = i
      · exact .inr ⟨hji ▸ rfl, rfl⟩
      · exact .inl (by simpa [setConsumer, hji] using hj)
    · simp [setConsumer, ConsumerPhase.Wrote]
  · next hphase =>
    obtain rfl := Option.some.inj h
    have hwrote : (s.consumers i).Wrote := by simp [hphase, ConsumerPhase.Wrote]
    have hsame : ∀ j, ((s.setConsumer i .recorded).consumers j).Wrote ↔ (s.consumers j).Wrote := by
      intro j
      by_cases hji : j = i
      · subst hji
        simp [setConsumer, hphase, ConsumerPhase.Wrote]
      · simp [setConsumer, hji]
    exact turns_saveIn hT (by decide) (fun _ => (hT i).wrote hwrote) (fun j => (hsame j).2)
      (fun j hj => .inl ((hsame j).1 hj)) (fun j hkey _ => ⟨i, hkey.symm, (hsame i).2 hwrote⟩)
      (hC rfl)
  · next hphase =>
    obtain rfl := Option.some.inj h
    exact turns_setConsumer hT (by simp [hphase, ConsumerPhase.Wrote])
  · next hphase =>
    obtain rfl := Option.some.inj h
    exact turns_setConsumer hT (by simp [hphase, ConsumerPhase.Wrote])
  · cases h

theorem turns_claims (hT : ∀ j, s.Turn c j) {caseId delivery : Text}
    (hC : Orderly c s (.claims caseId delivery)) (h : s.step c (.claims caseId delivery) = some t) :
    ∀ j, t.Turn c j := by
  obtain rfl := Option.some.inj h
  intro j
  have hj := hT j
  -- The claim of a case stays with the delivery of a run that it let through.
  have hholder : (s.runs j).LetThrough ∨ j ∈ s.actors →
      c.OneRecord j ∨ s.holder (c.caseId j) = some (c.request j).record.delivery →
      c.OneRecord j ∨ Function.update s.holder caseId (some delivery) (c.caseId j) =
        some (c.request j).record.delivery := by
    intro hthrough hclaim
    by_cases hcase : c.caseId j = caseId
    · refine (hC j hcase hthrough).imp_right fun hdelivery => ?_
      rw [hcase, Function.update_self, hdelivery]
    · rwa [Function.update_of_ne hcase]
  refine ⟨hj.terminal, hj.saved, hj.wrote, hj.checked, hj.alone, hj.acted, hj.clean, hj.clear,
    fun h => hholder (.inl h) (hj.claim h), fun h => ?_⟩
  have hacted := hj.acts h
  exact ⟨hacted.done, hholder (.inr h) hacted.claim, hacted.present, hacted.sole, hacted.past,
    hacted.sent⟩

end Steps

end CaseRuns

end ResidentCrm.Dlt
