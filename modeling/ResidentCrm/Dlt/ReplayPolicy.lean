import ResidentCrm.Dlt.Parked
import ResidentCrm.Dlt.Reuse
import ResidentCrm.Lib.Machine
import Mathlib.Logic.Function.Basic

/-!
# Every way to a replay

`_analyze` of `api/dlt_routes.py` and the release of `dlt/parked.py` as one machine. An analysis
takes its group's record, may read it again, and finishes: it vets a finding (a fresh one, a served
one or a fixed one), caches it or not, and attempts a replay or parks the packet. A release replays
what is parked. What an attempt was vetted on, its `Basis`, is kept with it, so that what the policy
asks of it (`Attempt.Allowed`) can be asked of the attempt.
-/

namespace ResidentCrm.Dlt

structure Policy (R : Type*) where
  ceilings : Ceilings R
  replay : ReplayConfig R
  park : ParkConfig R
  reuseEnabled : Bool

structure Basis (R : Type*) where
  ceilings : Ceilings R
  replay : ReplayConfig R
  occurrence : Occurrence
  /-- The finding before the policy. -/
  given : Finding R
deriving DecidableEq

/-- What became of the analysis lane: its budget ran out, it raised, or its synthesis replied. -/
inductive Lane (R : Type*) where
  | outOfTime
  | raised
  | replied (feedback : Review.Value) (reply repair : Option (Finding R))

inductive Provenance where
  | agent
  | failedSynthesis
  | canned
  | groupReuse
deriving DecidableEq, Repr

/-- What an analysis has read of its group: the record it decides on, and the one it would serve. -/
structure Held (R : Type*) where
  fingerprint : Text
  decided : Group R
  served : Group R

/-- An analysis at its end: the facts of its case, what its lane came to, and what goes through. -/
structure Analysis (R : Type*) where
  policy : Policy R
  caseId : Text
  refId : Option Text
  failureClass : FailureClass
  corroboration : Corroboration
  corroborationReason : Text
  couldNotLook : Option Bool
  registryHit : Bool
  gapped : Bool
  check : CodeCheck
  lane : Lane R
  /-- The finding carries an identifier of its packet. -/
  withheld : Bool
  attaches : Bool
  store : ParkStore
  now : R

inductive Gate where
  | direct (check : CodeCheck)
  | release (enabled : Bool) (pattern : Option Pattern) (running : List Operand) (required : Text)

structure Attempt (R : Type*) where
  basis : Basis R
  refId : Text
  gate : Gate

variable {ι R : Type*} [DecidableEq ι] [LinearOrder R] [Zero R] [One R]

namespace Analysis

variable (a : Analysis R) (h : Held R)

def decision : Reuse.Decision :=
  Reuse.decide a.policy.reuseEnabled a.failureClass a.corroboration h.decided

/-- The finding an analysis gives the policy. A served recommendation is checked against the
contract again. -/
def given : Option (Finding R × Provenance) :=
  match a.decision h with
  | .canned =>
    some (cannedFinding a.failureClass a.corroboration a.corroborationReason, .canned)
  | .reuseGroup => (parseFinding h.served.recommendation).map (·, .groupReuse)
  | .llmRequired =>
    match a.lane with
    | .outOfTime | .raised => none
    | .replied feedback reply repair =>
      (synthesise feedback reply repair).map fun
        | some f => (f, .agent)
        | none => (failedSynthesis, .failedSynthesis)

def occurrence : Occurrence where
  failureClass := a.failureClass
  corroboration := a.corroboration
  registryHit := a.registryHit
  reused := a.decision h = .reuseGroup
  gapped := a.gapped
  couldNotLook := a.couldNotLook

def vetted : Option (Basis R × Provenance) :=
  (a.given h).map fun x => (⟨a.policy.ceilings, a.policy.replay, a.occurrence h, x.1⟩, x.2)

/-- Only a model's finding is cached, and not one about its own occurrence or packet. -/
def caches (provenance : Provenance) : Bool :=
  provenance = .agent && !a.corroboration.isDiscrepancy && !a.withheld && a.attaches

end Analysis

section

variable (mul : Num R → Num R → Num R)

def Basis.finding (b : Basis R) : Finding R := applyPolicy mul b.ceilings b.occurrence b.given

/-- Whether `maybe_replay` attempts a replay. -/
def Analysis.clears (a : Analysis R) (b : Basis R) : Bool :=
  (AutoReplay.decide b.replay (b.finding mul) a.refId (some a.check)).shouldReplay

def Analysis.attempts (a : Analysis R) (b : Basis R) : List (Attempt R) :=
  if a.clears mul b then [⟨b, a.refId.getD [], .direct a.check⟩] else []

end

/-! ## The machine -/

structure State (ι R : Type*) where
  groups : Text → Group R
  held : ι → Option (Held R)
  parked : List (Entry R (Basis R))
  attempts : List (Attempt R)

def State.hold (s : State ι R) (i : ι) (h : Option (Held R)) : State ι R :=
  { s with held := Function.update s.held i h }

inductive Act (ι R : Type*) where
  /-- `i` loads the record of its group, which may fail. -/
  | take (i : ι) (fingerprint : Text) (loads : Bool)
  /-- `i` reads the record again, after its code check or inside the gate, and decides again there. -/
  | refresh (i : ι) (again : Bool)
  | finish (i : ι) (a : Analysis R)
  /-- `release_ready`, where `DLT_AUTO_REPLAY_ENABLED` is `enabled`. -/
  | release (enabled : Bool) (r : Release R)

variable (mul : Num R → Num R → Num R)

def Analysis.finish (a : Analysis R) (s : State ι R) (i : ι) (h : Held R) : State ι R :=
  match a.vetted h with
  | none => s.hold i none
  | some (b, provenance) =>
    { groups :=
        if a.caches provenance then
          Function.update s.groups h.fingerprint
            (attachRecommendation (b.finding mul) a.corroboration)
        else s.groups
      held := Function.update s.held i none
      parked := (maybePark a.policy.park a.policy.replay a.store s.parked a.caseId a.refId a.check
        (b.finding mul) a.now b).2
      attempts := s.attempts ++ a.attempts mul b }

variable [Sub R]

def Release.attempts (r : Release R) (enabled : Bool) (entries : List (Entry R (Basis R))) :
    List (Attempt R) :=
  (r.replayed entries).map fun e =>
    ⟨e.basis, e.refId, .release enabled r.cfg.pattern r.running e.requiredVersion⟩

def replays (ι : Type*) [DecidableEq ι] : Machine (State ι R) (Act ι R) where
  start s := (∀ i, s.held i = none) ∧ s.parked = [] ∧ s.attempts = []
  step s
    | .take i fingerprint loads =>
      let group := if loads then s.groups fingerprint else {}
      some (s.hold i (some ⟨fingerprint, group, group⟩))
    | .refresh i again =>
      (s.held i).map fun h =>
        let group := s.groups h.fingerprint
        s.hold i (some ⟨h.fingerprint, if again then group else h.decided, group⟩)
    | .finish i a => (s.held i).map (a.finish mul s i)
    | .release enabled r =>
      some { s with
        parked := s.parked.map r.mark
        attempts := s.attempts ++ r.attempts enabled s.parked }

/-! ## What the policy asks -/

/-- Auto-replay is enabled: where the finding was vetted, and where it is released. -/
def Attempt.enabled (t : Attempt R) : Bool :=
  t.basis.replay.enabled && match t.gate with
    | .direct _ => true
    | .release enabled .. => enabled

/-- The code check lets a direct replay through; all the running versions of a release are at least
the required one. -/
def Attempt.Cleared (t : Attempt R) : Prop :=
  match t.gate with
  | .direct check => t.basis.replay.codeCheckGatesReplay = true →
      check.verdict ≠ .noChange ∧ check.verdict ≠ .notDeployed
  | .release _ pattern running required =>
    running ≠ [] ∧ ∀ x ∈ running, atLeast pattern x (.text required) = some true

instance (t : Attempt R) : Decidable t.Cleared := by
  unfold Attempt.Cleared
  split <;> infer_instance

/-- The policy of automatic replays. -/
structure Attempt.Allowed (t : Attempt R) : Prop where
  enabled : t.enabled = true
  action : (t.basis.finding mul).action ∈ t.basis.replay.actions
  confidence : ∃ x ∈ (t.basis.finding mul).confidence, t.basis.replay.threshold.Le x ∧
    Under t.basis.ceilings t.basis.occurrence t.basis.given.reviewerApproved x
  corroborated : t.basis.occurrence.corroboration = .unverifiable →
    t.basis.replay.allowUnverified = true
  refId : t.refId ≠ []
  reviewed : (t.basis.finding mul).reviewerApproved ≠ some false
  cleared : t.Cleared

/-! ## Where it is kept -/

/-- The threshold, the ceilings a case triggers and its confidence are numbers. -/
def Basis.Numeric (b : Basis R) : Prop :=
  b.replay.threshold ≠ none ∧ Numbered mul b.ceilings b.occurrence b.given

/-- The lowest running version ties with the required one, having no build number, and another
running version of that core is a build before the required one. -/
def Release.Straddles (r : Release R) (required : Text) : Prop :=
  ∃ low ∈ lowest r.cfg.pattern r.running, ∃ b ∈ parse r.cfg.pattern required,
    low.build = none ∧ low.rank.key = b.rank.key ∧
      ∃ x ∈ r.running, ∃ a ∈ x.read r.cfg.pattern, a.rank.key = b.rank.key ∧
        ∃ m ∈ a.build, ∃ n ∈ b.build, m < n

/-- No step replays on a comparison of what is no number, on a tie that hides an older build, or
where auto-replay has been switched off since. -/
def Within (s : State ι R) : Act ι R → Prop
  | .take .. | .refresh .. => True
  | .finish i a => ∀ h ∈ s.held i, ∀ x ∈ a.vetted h, a.clears mul x.1 = true → x.1.Numeric mul
  | .release enabled r => ∀ e ∈ r.replayed s.parked,
      enabled = true ∧ e.basis.Numeric mul ∧ ¬ r.Straddles e.requiredVersion

end ResidentCrm.Dlt
