import ResidentCrm.Dlt.GroupCutover
import ResidentCrm.Dlt.ParkedQueue
import ResidentCrm.Storage.TerminalRace

/-!
# The runs of a case

`_analyze` of `api/dlt_routes.py` from its two checks to its late-result guard, for any number of
requests, with what goes on beside them: the fetch stage's claims, the consumers that give up on a
request and record a timeout, and the passes of `release_ready`. Every read and write of a store is
a step of its own, and so is a replay. A run, a consumer or a pass that dies takes no further step.

Which finding a run comes to, from the rules, its group or the agents, is left to the action that
ends its analysis. A state keeps, as history, the replays that were queued and who queued them; an
entry's `basis` is the run that parked it.
-/

namespace ResidentCrm.Dlt

open Storage
open GroupStore (storageKey DltRecord)

/-- One request to `/analyze-dlt`, and the settings of the process it reached. -/
structure Request (R : Type*) where
  record : DltRecord
  replay : ReplayConfig R
  park : ParkConfig R

inductive RunPhase (R : Type*) where
  /-- About to read a file for a terminal status, before anything else. -/
  | checking (file : File)
  | readingClaim
  | analysing
  | replaying (f : Finding R) (check : CodeCheck)
  | parking (f : Finding R) (check : CodeCheck)
  /-- The late-result guard is about to read a file; the casebook carries the status `v`. -/
  | guarding (file : File) (v : Status)
  | saving (file : File) (v : Status)
  | discarded
  | ended
deriving DecidableEq

inductive PassPhase (R γ : Type*) where
  | waiting
  | working (entries : List (Entry R γ))
  /-- About to write an entry over the one in the store. -/
  | marking (e : Entry R γ) (entries : List (Entry R γ))
deriving DecidableEq

inductive Sender (ι κ : Type*) where
  | run (i : ι)
  | pass (p : κ)
deriving DecidableEq, Repr

structure QueuedReplay (ι κ : Type*) where
  caseId : Text
  sender : Sender ι κ
deriving DecidableEq, Repr

structure CaseRuns (ι κ R : Type*) where
  files : Text → Files Status
  /-- `ref_id` of each case's `claim.json`. -/
  holder : Text → Option Text
  runs : ι → RunPhase R
  consumers : ι → ConsumerPhase
  passes : κ → PassPhase R ι
  entries : List (Entry R ι)
  queued : List (QueuedReplay ι κ)

/-- What the runs, each with its consumer, and the passes are given. -/
structure CaseConfig (ι κ R : Type*) where
  digest : Text → Text
  request : ι → Request R
  pass : κ → Pass R

/-- `reads` is whether a file can be read, `ok` whether it is written, `queues` what the replay tool
reports. -/
inductive CaseAct (ι κ R : Type*) where
  | checks (i : ι) (reads : Bool)
  | readsClaim (i : ι) (reads : Bool)
  /-- The service gate turns the record away. -/
  | skips (i : ι)
  | finishes (i : ι) (f : Finding R) (check : CodeCheck)
  | timesOut (i : ι)
  | replays (i : ι) (queues : Bool)
  | parks (i : ι) (store : ParkStore) (now : R)
  | guards (i : ι) (reads : Bool)
  | saves (i : ι) (ok : Bool)
  /-- The fetch stage of a delivery creates the claim of a case, or takes it over. -/
  | claims (caseId delivery : Text)
  | consumerTimesOut (i : ι)
  | consumerSaves (i : ι) (ok : Bool)
  | lists (p : κ)
  | examines (p : κ)
  | marks (p : κ)

variable {ι κ R : Type*}

/-- `_terminal_status`. -/
def terminalStatusOf (f : Finding R) : Status :=
  if f.action = .noAction then .completed else .needsManualReview

section

variable [LinearOrder R] [Sub R] [Zero R]

/-- What a pass writes of an entry it has listed, if it writes it: `released` once the replay tool
has queued it, and still `parked` after an attempt that was not queued. -/
def Pass.examine {γ : Type*} (p : Pass R) (e : Entry R γ) : Option ParkStatus :=
  if p.release.dryRun then none
  else match p.standing e with
    | .expired => some .expired
    | .unknown | .waiting => none
    | .ready => some (if e.refId ≠ [] ∧ p.release.queues e.caseId then .released else .parked)

end

/-- An entry saved under its case id, where the store has one. -/
def overwrite {γ : Type*} (e old : Entry R γ) : Entry R γ :=
  if old.caseId = e.caseId then e else old

namespace CaseConfig

variable (c : CaseConfig ι κ R)

def caseId (i : ι) : Text := (c.request i).record.caseId

def key (i : ι) : Text := storageKey c.digest (c.request i).record.refId (c.caseId i)

/-- `maybe_replay` asks the replay tool. -/
def sends [LinearOrder R] (i : ι) (f : Finding R) (check : CodeCheck) : Bool :=
  (AutoReplay.decide (c.request i).replay f (c.request i).record.refId (some check)).shouldReplay

/-- The store after `maybe_park` of a run. -/
def parked [LinearOrder R] (i : ι) (f : Finding R) (check : CodeCheck) (store : ParkStore) (now : R)
    (entries : List (Entry R ι)) : List (Entry R ι) :=
  (maybePark (c.request i).park (c.request i).replay store entries (c.caseId i)
    (c.request i).record.refId check f now i).2

end CaseConfig

namespace CaseRuns

/-- A file of `terminal_status` that cannot be read is one that is not there. -/
def terminalIn (s : CaseRuns ι κ R) (key : Text) (file : File) (reads : Bool) : Option Status :=
  if reads then ((s.files key).load file).filter (·.Terminal) else none

/-- The second file is read only if the first has no terminal status. -/
def checked (s : CaseRuns ι κ R) (key : Text) (file : File) (reads : Bool) : RunPhase R :=
  match s.terminalIn key file reads, file with
  | some _, _ => .ended
  | none, .status => .checking .casebook
  | none, .casebook => .readingClaim

def guarded (s : CaseRuns ι κ R) (key : Text) (file : File) (v : Status) (reads : Bool) :
    RunPhase R :=
  match s.terminalIn key file reads, file with
  | some w, _ => if w.Protected then .discarded else .saving .casebook v
  | none, .status => .guarding .casebook v
  | none, .casebook => .saving .casebook v

/-- `holder and holder != delivery`, where no claim that can be read is none at all. -/
def claimed (s : CaseRuns ι κ R) (d : DltRecord) (reads : Bool) : RunPhase R :=
  if (if reads then s.holder d.caseId else none).any fun h => h ≠ [] ∧ h ≠ d.delivery then .ended
  else .analysing

def saveIn (s : CaseRuns ι κ R) (key : Text) (v : Status) (file : File) : CaseRuns ι κ R :=
  { s with files := Function.update s.files key ((s.files key).save v file) }

variable [DecidableEq ι] [DecidableEq κ]

def setRun (s : CaseRuns ι κ R) (i : ι) (p : RunPhase R) : CaseRuns ι κ R :=
  { s with runs := Function.update s.runs i p }

def setConsumer (s : CaseRuns ι κ R) (i : ι) (p : ConsumerPhase) : CaseRuns ι κ R :=
  { s with consumers := Function.update s.consumers i p }

def setPass (s : CaseRuns ι κ R) (p : κ) (q : PassPhase R ι) : CaseRuns ι κ R :=
  { s with passes := Function.update s.passes p q }

variable [LinearOrder R] [Sub R] [Zero R] (c : CaseConfig ι κ R)

/-- `save_terminal`: `casebook.json`, then `status.json`; the request fails where one is not
written. -/
def runSaves (s : CaseRuns ι κ R) (i : ι) (ok : Bool) : Option (CaseRuns ι κ R) :=
  match s.runs i with
  | .saving file v =>
    if ok then
      some ((s.setRun i (if file = .casebook then .saving .status v else .ended)).saveIn
        (c.key i) v file)
    else some (s.setRun i .ended)
  | _ => none

def consumerSaves (s : CaseRuns ι κ R) (i : ι) (ok : Bool) : Option (CaseRuns ι κ R) :=
  match s.consumers i, ok with
  | .savingCasebook, true =>
    some ((s.setConsumer i .savingStatus).saveIn (c.key i) .failedTimeout .casebook)
  | .savingStatus, true =>
    some ((s.setConsumer i .recorded).saveIn (c.key i) .failedTimeout .status)
  | .savingCasebook, false => some (s.setConsumer i .silent)
  | .savingStatus, false => some (s.setConsumer i .torn)
  | _, _ => none

/-- The loop of `release_ready`, an entry at a time: the replay is queued before the entry is
marked. -/
def passExamines (s : CaseRuns ι κ R) (p : κ) : Option (CaseRuns ι κ R) :=
  match s.passes p with
  | .working (e :: es) =>
    match (c.pass p).examine e with
    | none => some (s.setPass p (.working es))
    | some v =>
      some { s.setPass p (.marking { e with status := v } es) with
        queued := if v = .released then s.queued ++ [⟨e.caseId, .pass p⟩] else s.queued }
  | _ => none

/-- `_mark`: the entry as it was listed is written over the one in the store. -/
def passMarks (s : CaseRuns ι κ R) (p : κ) : Option (CaseRuns ι κ R) :=
  match s.passes p with
  | .marking e es =>
    some { s.setPass p (.working es) with
      entries :=
        if (c.pass p).release.marks e.caseId then s.entries.map (overwrite e) else s.entries }
  | _ => none

def step (s : CaseRuns ι κ R) : CaseAct ι κ R → Option (CaseRuns ι κ R)
  | .checks i reads =>
    match s.runs i with
    | .checking file => some (s.setRun i (s.checked (c.key i) file reads))
    | _ => none
  | .readsClaim i reads =>
    if s.runs i = .readingClaim then some (s.setRun i (s.claimed (c.request i).record reads))
    else none
  | .skips i => if s.runs i = .analysing then some (s.setRun i .ended) else none
  | .finishes i f check =>
    if s.runs i = .analysing then some (s.setRun i (.replaying f check)) else none
  | .timesOut i =>
    if s.runs i = .analysing then some (s.setRun i (.saving .casebook .failedTimeout)) else none
  | .replays i queues =>
    match s.runs i with
    | .replaying f check =>
      some { s.setRun i (.parking f check) with
        queued :=
          if c.sends i f check && queues then s.queued ++ [⟨c.caseId i, .run i⟩] else s.queued }
    | _ => none
  | .parks i store now =>
    match s.runs i with
    | .parking f check =>
      some { s.setRun i (.guarding .status (terminalStatusOf f)) with
        entries := c.parked i f check store now s.entries }
    | _ => none
  | .guards i reads =>
    match s.runs i with
    | .guarding file v => some (s.setRun i (s.guarded (c.key i) file v reads))
    | _ => none
  | .saves i ok => s.runSaves c i ok
  | .claims caseId delivery =>
    some { s with holder := Function.update s.holder caseId (some delivery) }
  | .consumerTimesOut i =>
    if s.consumers i = .waiting then some (s.setConsumer i .savingCasebook) else none
  | .consumerSaves i ok => s.consumerSaves c i ok
  | .lists p =>
    if s.passes p = .waiting then
      some (s.setPass p (.working (listParked (s.entries.filter (c.pass p).sees))))
    else none
  | .examines p => s.passExamines c p
  | .marks p => s.passMarks c p

/-- Nothing is parked or queued yet; files and claims are as they are. -/
structure Fresh (s : CaseRuns ι κ R) : Prop where
  runs : ∀ i, s.runs i = .checking .status
  consumers : ∀ i, s.consumers i = .waiting
  passes : ∀ p, s.passes p = .waiting
  entries : s.entries = []
  queued : s.queued = []

end CaseRuns

/-- The requests `c.request`, each with its consumer, and the passes `c.pass`. -/
def caseRuns [DecidableEq ι] [DecidableEq κ] [LinearOrder R] [Sub R] [Zero R]
    (c : CaseConfig ι κ R) : Machine (CaseRuns ι κ R) (CaseAct ι κ R) where
  start := CaseRuns.Fresh
  step := CaseRuns.step c

end ResidentCrm.Dlt
