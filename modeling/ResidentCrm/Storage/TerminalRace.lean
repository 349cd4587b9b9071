import ResidentCrm.Lib.Machine
import ResidentCrm.Storage.Casebook

/-!
# Who records a packet's verdict

One investigation of a packet (`_investigate_packet`) and the consumer that posted it
(`_process_and_commit`) both write the packet's terminal casebook, each as `casebook.json` and then
`status.json`. A state holds the two files with their writers and the point each actor is at; an
action is one storage operation of one of them, or what the graph, the clock or a crash decides.

The finished casebook is saved after a guard that reads both files, in two more operations: the
consumer's verdict may land in between. `InTime` says when a step comes in time, by what the two
actors are in the middle of.
-/

namespace ResidentCrm

namespace Storage

/-- The two actors of one delivery, and whoever wrote the files before it. -/
inductive Actor
  | earlier | api | consumer
  deriving DecidableEq, Repr

structure Entry where
  status : Status
  author : Actor
  deriving DecidableEq, Repr

/-- The ways `_investigate_packet` saves a terminal casebook. -/
inductive Way
  /-- The graph returned; the casebook carries this status. -/
  | finish (v : Status)
  | timeout
  | failed
  deriving DecidableEq, Repr

namespace Way

def writes : Way → Status
  | finish v => v
  | timeout => .failedTimeout
  | failed => .dlq

/-- `check_rejection_casebook` lets the casebook through. -/
def Checked : Way → Prop
  | finish v => v.Investigated
  | _ => True

instance : DecidablePred Checked
  | finish v => inferInstanceAs (Decidable v.Investigated)
  | timeout => .isTrue trivial
  | failed => .isTrue trivial

theorem protected_or_finish (w : Way) : w.writes.Protected ∨ ∃ v, w = .finish v := by
  cases w with
  | finish v => exact .inr ⟨v, rfl⟩
  | timeout | failed => exact .inl (by decide)

end Way

inductive ApiPhase
  | received | opening | running
  /-- The guard is about to read `status.json`, then `casebook.json`. -/
  | guardStatus (v : Status)
  | guardCasebook (v : Status)
  /-- About to save `casebook.json`, then `status.json`. -/
  | savingCasebook (w : Way)
  | savingStatus (w : Way)
  /-- The timeout is recorded and not yet answered. -/
  | timedOut
  | ended
  deriving DecidableEq, Repr

inductive ConsumerPhase
  | waiting | savingCasebook | savingStatus
  /-- Ended with nothing, only `casebook.json`, or both files written. -/
  | silent | torn | recorded
  deriving DecidableEq, Repr

def ConsumerPhase.Wrote : ConsumerPhase → Prop
  | savingStatus | torn | recorded => True
  | waiting | savingCasebook | silent => False

instance : DecidablePred ConsumerPhase.Wrote
  | .savingStatus | .torn | .recorded => .isTrue trivial
  | .waiting | .savingCasebook | .silent => .isFalse id

def ConsumerPhase.Settled : ConsumerPhase → Prop
  | torn | recorded => True
  | _ => False

instance : DecidablePred ConsumerPhase.Settled
  | .torn | .recorded => .isTrue trivial
  | .savingStatus | .waiting | .savingCasebook | .silent => .isFalse id

structure Race where
  files : Files Entry
  api : ApiPhase
  consumer : ConsumerPhase
  deriving DecidableEq, Repr

/-- One step; `ok` is whether the write happens or raises. -/
inductive RaceAction
  | apiOpens | apiTurnedAway | apiStubs (ok : Bool)
  | graphReturns (v : Status) | graphTimesOut | graphRaises
  | apiGuards | apiSaves (ok : Bool) | apiAnswers (ok : Bool) | apiDies
  | consumerTimesOut | consumerSaves (ok : Bool)
  deriving DecidableEq, Repr

namespace Race

def statusIn (s : Race) (f : File) : Option Status := (s.files.load f).map Entry.status

def reads (s : Race) (f : File) (p : Status → Bool) : Bool := (s.statusIn f).any p

/-- Where an exception in a terminal save leads: the timeout's is caught by the handler that
records `DLQ`, the others leave the request. -/
def onRaise : Way → ApiPhase
  | .timeout => .savingCasebook .failed
  | .finish _ | .failed => .ended

def onSaved : Way → ApiPhase
  | .timeout => .timedOut
  | .finish _ | .failed => .ended

/-- `terminal_status` returned a terminal status: the guard discards a protected one. -/
def guarded (s : Race) (f : File) (v : Status) : ApiPhase :=
  if s.reads f (· ∈ Status.protectedTerminalStatuses) then .ended else .savingCasebook (.finish v)

def apiGuards (s : Race) : Option Race :=
  match s.api with
  | .guardStatus v =>
    -- `terminal_status` reads the second file only if the first is not terminal.
    if s.reads .status (· ∈ Status.terminalStatuses) then
      some { s with api := s.guarded .status v }
    else some { s with api := .guardCasebook v }
  | .guardCasebook v => some { s with api := s.guarded .casebook v }
  | _ => none

def apiSaves (s : Race) (ok : Bool) : Option Race :=
  match s.api with
  | .savingCasebook w =>
    if ok ∧ w.Checked then
      some { s with
        files := s.files.save ⟨w.writes, .api⟩ .casebook
        api := .savingStatus w }
    else some { s with api := onRaise w }
  | .savingStatus w =>
    if ok then
      some { s with files := s.files.save ⟨w.writes, .api⟩ .status, api := onSaved w }
    else some { s with api := onRaise w }
  | _ => none

def consumerSaves (s : Race) (ok : Bool) : Option Race :=
  match s.consumer, ok with
  | .savingCasebook, true =>
    some { s with
      files := s.files.save ⟨.failedTimeout, .consumer⟩ .casebook
      consumer := .savingStatus }
  | .savingStatus, true =>
    some { s with
      files := s.files.save ⟨.failedTimeout, .consumer⟩ .status
      consumer := .recorded }
  | .savingCasebook, false => some { s with consumer := .silent }
  | .savingStatus, false => some { s with consumer := .torn }
  | _, _ => none

/-- `_investigate_packet` answers at once for a casebook that is terminal and not redeliverable. -/
def alreadyProcessed (s : Race) : Bool :=
  s.reads .casebook fun v =>
    v ∈ Status.terminalStatuses ∧ v ∉ Status.redeliverableTerminalStatuses

def step (s : Race) : RaceAction → Option Race
  | .apiOpens =>
    if s.api = .received then
      some { s with api := if s.alreadyProcessed then .ended else .opening }
    else none
  -- The gate skips the packet, or another run holds it.
  | .apiTurnedAway => if s.api = .opening then some { s with api := .ended } else none
  | .apiStubs ok =>
    if s.api = .opening then
      if ok then
        some { s with files := s.files.save ⟨.inProgress, .api⟩ .status, api := .running }
      else some { s with api := .ended }
    else none
  | .graphReturns v => if s.api = .running then some { s with api := .guardStatus v } else none
  | .graphTimesOut =>
    if s.api = .running then some { s with api := .savingCasebook .timeout } else none
  | .graphRaises =>
    if s.api = .running then some { s with api := .savingCasebook .failed } else none
  | .apiGuards => s.apiGuards
  | .apiSaves ok => s.apiSaves ok
  | .apiAnswers ok =>
    if s.api = .timedOut then
      some { s with api := if ok then .ended else .savingCasebook .failed }
    else none
  | .apiDies => some { s with api := .ended }
  | .consumerTimesOut =>
    if s.consumer = .waiting then some { s with consumer := .savingCasebook } else none
  | .consumerSaves ok => s.consumerSaves ok

/-- Neither actor has begun; what the files hold was written earlier. -/
def Initial (s : Race) : Prop :=
  s.api = .received ∧ s.consumer = .waiting ∧
    ∀ f, ∀ e ∈ s.files.load f, e.author = .earlier

def machine : Machine Race RaceAction where
  start := Initial
  step := step

/-! ## What is promised -/

/-- A protected verdict of one actor is not replaced by an unprotected one of the other. -/
def Kept (s t : Race) : Prop :=
  ∀ f, ∀ e ∈ s.files.load f, e.status.Protected → ∀ e' ∈ t.files.load f,
    (e.author = .api ∧ e'.author = .consumer ∨ e.author = .consumer ∧ e'.author = .api) →
      e'.status.Protected

def Agree (s : Race) : Prop := s.statusIn .casebook = s.statusIn .status

def ApiBetween (s : Race) : Prop := ∃ w, s.api = .savingStatus w

def ConsumerBetween (s : Race) : Prop := s.consumer = .savingStatus

def Begun (s : Race) : Prop := ∃ e ∈ s.files.casebook, e.author ≠ .earlier

/-- The files agree whenever no writer is between its two writes. -/
def Settled (s : Race) : Prop := s.Begun → ¬ s.ApiBetween → ¬ s.ConsumerBetween → s.Agree

/-! ## When a step comes in time -/

/-- The guard let a finished casebook through, and it is not saved yet. -/
def Passed (s : Race) : Prop := ∃ v, s.api = .savingCasebook (.finish v)

/-- Both are between their writes, and `casebook.json` is the other's by now. -/
def Overtaken (s : Race) (actor : Actor) : Prop :=
  s.ApiBetween ∧ s.ConsumerBetween ∧ ∃ e ∈ s.files.casebook, e.author ≠ actor

/-- An actor leaves its second write, made or not: it was overtaken; or it makes the write and the
other is not between its own, or is about to write the same. -/
def Leaves (s : Race) (actor : Actor) (ok : Bool) : Prop :=
  s.Overtaken actor ∨
    ok = true ∧ (s.ApiBetween → s.ConsumerBetween → s.api = .savingStatus .timeout)

/-- The steps that come in time. The consumer does not save `casebook.json` between the guard's
reading of it and the save of the casebook it let through, and it does not save `status.json`
between the first look of the API and its stub; of two saves that overlap, the one that was first
with `casebook.json` is first with `status.json`; and no save stops after `casebook.json`, but one
that was overtaken. -/
def InTime (s : Race) : RaceAction → Prop
  | .apiSaves ok => s.ApiBetween → s.Leaves .api ok
  | .apiDies => s.ApiBetween → s.Leaves .api false
  | .consumerSaves ok =>
    (s.consumer = .savingCasebook → ok = true → ¬ s.Passed) ∧
      (s.ConsumerBetween → s.api ≠ .opening ∧ s.Leaves .consumer ok)
  | _ => True

instance : DecidablePred ApiBetween := fun s =>
  match h : s.api with
  | .savingStatus w => .isTrue ⟨w, h⟩
  | .received | .opening | .running | .guardStatus _ | .guardCasebook _ | .savingCasebook _
  | .timedOut | .ended => .isFalse fun ⟨w, hw⟩ => by simp [hw] at h

instance : DecidablePred Passed := fun s =>
  match h : s.api with
  | .savingCasebook (.finish v) => .isTrue ⟨v, h⟩
  | .received | .opening | .running | .guardStatus _ | .guardCasebook _ | .savingStatus _
  | .savingCasebook .timeout | .savingCasebook .failed
  | .timedOut | .ended => .isFalse fun ⟨v, hv⟩ => by simp [hv] at h

instance : DecidablePred ConsumerBetween := fun s =>
  inferInstanceAs (Decidable (s.consumer = .savingStatus))

instance (s : Race) (actor : Actor) : Decidable (s.Overtaken actor) :=
  inferInstanceAs (Decidable (_ ∧ _ ∧ ∃ e ∈ s.files.casebook, e.author ≠ actor))

instance (s : Race) (actor : Actor) (ok : Bool) : Decidable (s.Leaves actor ok) :=
  inferInstanceAs (Decidable (_ ∨ ok = true ∧ (_ → _ → s.api = .savingStatus .timeout)))

instance (s : Race) (a : RaceAction) : Decidable (s.InTime a) :=
  match a with
  | .apiSaves ok => inferInstanceAs (Decidable (s.ApiBetween → s.Leaves .api ok))
  | .apiDies => inferInstanceAs (Decidable (s.ApiBetween → s.Leaves .api false))
  | .consumerSaves ok =>
    inferInstanceAs (Decidable ((s.consumer = .savingCasebook → ok = true → ¬ s.Passed) ∧
      (s.ConsumerBetween → s.api ≠ .opening ∧ s.Leaves .consumer ok)))
  | .apiOpens | .apiTurnedAway | .apiStubs _ | .graphReturns _ | .graphTimesOut | .graphRaises
  | .apiGuards | .apiAnswers _ | .consumerTimesOut => .isTrue trivial

/-! ## What a step does -/

/-- The API has not begun to save a casebook, or is about to save a finished one. -/
def Early : ApiPhase → Prop
  | .received | .opening | .running | .guardStatus _ | .guardCasebook _ => True
  | .savingCasebook (.finish _) => True
  | _ => False

/-- The graph is running, or its result is before the guard. -/
def Stubbed : ApiPhase → Prop
  | .running | .guardStatus _ | .guardCasebook _ => True
  | _ => False

/-- The file that the guard reads is the last it reads, and shows no protected status. -/
def PassedBy (s : Race) (v : Status) : Prop :=
  (s.api = .guardStatus v ∧ s.reads .status (· ∈ Status.terminalStatuses) = true ∧
    s.reads .status (· ∈ Status.protectedTerminalStatuses) = false) ∨
  (s.api = .guardCasebook v ∧ s.reads .casebook (· ∈ Status.protectedTerminalStatuses) = false)

/-- What a step does to the files, and where it leaves its actor. -/
inductive Steps (s : Race) : RaceAction → Race → Prop
  | opens (h : s.api = .received) (hnew : s.alreadyProcessed = false) :
      Steps s .apiOpens { s with api := .opening }
  | stubs (h : s.api = .opening) :
      Steps s (.apiStubs true)
        { s with files := s.files.save ⟨.inProgress, .api⟩ .status, api := .running }
  | guards {a : RaceAction} {p : ApiPhase} (h : Stubbed s.api) (hp : Stubbed p) :
      Steps s a { s with api := p }
  | passes {v : Status} (h : s.PassedBy v) :
      Steps s .apiGuards { s with api := .savingCasebook (.finish v) }
  /-- To an end, or to where the API is about to save a casebook without asking. -/
  | moves {a : RaceAction} {p : ApiPhase} (hs : ¬ s.ApiBetween)
      (hp : ∀ w, p ≠ .savingStatus w) (hearly : ¬ Early p) : Steps s a { s with api := p }
  | saves {w : Way} (h : s.api = .savingCasebook w) (hw : w.Checked) :
      Steps s (.apiSaves true)
        { s with files := s.files.save ⟨w.writes, .api⟩ .casebook, api := .savingStatus w }
  | saved {w : Way} (h : s.api = .savingStatus w) :
      Steps s (.apiSaves true)
        { s with files := s.files.save ⟨w.writes, .api⟩ .status, api := onSaved w }
  | leaves {a : RaceAction} {w : Way} {p : ApiPhase} (h : s.api = .savingStatus w)
      (hp : p = .ended ∨ p = .savingCasebook .failed) (ha : a = .apiSaves false ∨ a = .apiDies) :
      Steps s a { s with api := p }
  | consumerMoves {a : RaceAction} {c : ConsumerPhase} (hs : ¬ s.consumer.Wrote) (hc : ¬ c.Wrote) :
      Steps s a { s with consumer := c }
  | consumerSaves (h : s.consumer = .savingCasebook) :
      Steps s (.consumerSaves true)
        { s with
          files := s.files.save ⟨.failedTimeout, .consumer⟩ .casebook
          consumer := .savingStatus }
  | consumerRecords (h : s.consumer = .savingStatus) :
      Steps s (.consumerSaves true)
        { s with
          files := s.files.save ⟨.failedTimeout, .consumer⟩ .status
          consumer := .recorded }
  | consumerTears (h : s.consumer = .savingStatus) :
      Steps s (.consumerSaves false) { s with consumer := .torn }

theorem onRaise_eq (w : Way) : onRaise w = .ended ∨ onRaise w = .savingCasebook .failed := by
  cases w <;> simp [onRaise]

theorem onSaved_eq (w : Way) : onSaved w = .ended ∨ onSaved w = .timedOut := by
  cases w <;> simp [onSaved]

/-- A move to an end, to the record of a failure or to the answer of a timeout. -/
theorem Steps.of_phase {s : Race} {a : RaceAction} {q p : ApiPhase} (hq : s.api = q)
    (hs : ∀ w, q ≠ .savingStatus w) (hp : ∀ w, p ≠ .savingStatus w) (he : ¬ Early p) :
    s.Steps a { s with api := p } :=
  .moves (fun ⟨w, hw⟩ => hs w (hq.symm.trans hw)) hp he

/-- Where the guard, having read the file it decides on, sends the casebook. -/
theorem steps_guarded {s : Race} {f : File} {v : Status} (hs : Stubbed s.api)
    (h : s.reads f (· ∈ Status.protectedTerminalStatuses) = false → s.PassedBy v) :
    s.Steps .apiGuards { s with api := s.guarded f v } := by
  have hbetween : ¬ s.ApiBetween := by
    rintro ⟨w, hw⟩
    simp [hw, Stubbed] at hs
  unfold guarded
  split
  · exact .moves hbetween (by simp) (by simp [Early])
  · next hread => exact .passes (h (Bool.eq_false_iff.2 hread))

theorem steps_apiGuards {s t : Race} (h : s.apiGuards = some t) : s.Steps .apiGuards t := by
  unfold apiGuards at h
  split at h
  · next v hv =>
    have hs : Stubbed s.api := by simp [hv, Stubbed]
    split at h
    · next hterminal =>
      cases h
      exact steps_guarded hs fun hread => .inl ⟨hv, hterminal, hread⟩
    · cases h
      exact .guards hs trivial
  · next v hv =>
    cases h
    exact steps_guarded (by simp [hv, Stubbed]) fun hread => .inr ⟨hv, hread⟩
  · cases h

theorem steps_apiSaves {s t : Race} {ok : Bool} (h : s.apiSaves ok = some t) :
    s.Steps (.apiSaves ok) t := by
  unfold apiSaves at h
  split at h
  · next w hw =>
    split at h
    · next hok =>
      cases h
      obtain ⟨rfl, hc⟩ := hok
      exact .saves hw hc
    · -- Nothing was written: the contract refused the casebook or the save raised.
      cases h
      rcases onRaise_eq w with hp | hp <;> rw [hp] <;>
        exact .of_phase hw (by simp) (by simp) (by simp [Early])
  · next w hw =>
    split at h
    · next hok =>
      cases h
      subst hok
      exact .saved hw
    · next hok =>
      cases h
      obtain rfl : ok = false := by simpa using hok
      exact .leaves hw (onRaise_eq w) (.inl rfl)
  · cases h

theorem steps_consumerSaves {s t : Race} {ok : Bool} (h : s.consumerSaves ok = some t) :
    s.Steps (.consumerSaves ok) t := by
  unfold consumerSaves at h
  split at h
  · next hc =>
    cases h
    exact .consumerSaves hc
  · next hc =>
    cases h
    exact .consumerRecords hc
  · next hc =>
    cases h
    exact .consumerMoves (by simp [hc, ConsumerPhase.Wrote]) id
  · next hc =>
    cases h
    exact .consumerTears hc
  · cases h

/-- **The inversion lemma.** -/
theorem steps_of_step {s t : Race} {a : RaceAction} (h : s.step a = some t) : s.Steps a t := by
  cases a with
  | apiOpens =>
    obtain ⟨ha, ⟨⟩⟩ := Option.ite_none_right_eq_some.1 h
    split
    · exact .of_phase ha (by simp) (by simp) (by simp [Early])
    · next hnew => exact .opens ha (Bool.eq_false_iff.2 hnew)
  | apiTurnedAway =>
    obtain ⟨ha, ⟨⟩⟩ := Option.ite_none_right_eq_some.1 h
    exact .of_phase ha (by simp) (by simp) (by simp [Early])
  | apiStubs ok =>
    obtain ⟨ha, h⟩ := Option.ite_none_right_eq_some.1 h
    cases ok with
    | true =>
      cases h
      exact .stubs ha
    | false =>
      cases h
      exact .of_phase ha (by simp) (by simp) (by simp [Early])
  | graphReturns v =>
    obtain ⟨ha, ⟨⟩⟩ := Option.ite_none_right_eq_some.1 h
    exact .guards (by simp [ha, Stubbed]) trivial
  | graphTimesOut =>
    obtain ⟨ha, ⟨⟩⟩ := Option.ite_none_right_eq_some.1 h
    exact .of_phase ha (by simp) (by simp) (by simp [Early])
  | graphRaises =>
    obtain ⟨ha, ⟨⟩⟩ := Option.ite_none_right_eq_some.1 h
    exact .of_phase ha (by simp) (by simp) (by simp [Early])
  | apiGuards => exact steps_apiGuards h
  | apiSaves ok => exact steps_apiSaves h
  | apiAnswers ok =>
    obtain ⟨ha, ⟨⟩⟩ := Option.ite_none_right_eq_some.1 h
    split
    · exact .of_phase ha (by simp) (by simp) (by simp [Early])
    · exact .of_phase ha (by simp) (by simp) (by simp [Early])
  | apiDies =>
    cases h
    by_cases hb : s.ApiBetween
    · obtain ⟨w, hw⟩ := hb
      exact .leaves hw (.inl rfl) (.inr rfl)
    · exact .moves hb (by simp) (by simp [Early])
  | consumerTimesOut =>
    obtain ⟨hc, ⟨⟩⟩ := Option.ite_none_right_eq_some.1 h
    exact .consumerMoves (by simp [hc, ConsumerPhase.Wrote]) id
  | consumerSaves ok => exact steps_consumerSaves h

end Race

end Storage

end ResidentCrm
