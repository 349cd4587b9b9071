import ResidentCrm.Packets.Shutdown

/-!
# The two lanes and their dead-letter queue

One message of a lane as its deliveries see it: the consumer that posts each of them
(`_process_and_commit`) and the route it posts to, in the rejection lane (`/fetch-logs` and
`_investigate_packet`) or in the DLT lane (`fetch_dlt_logs` and `analyze_dlt`). Both of them, and
the consumers of both, record a failed run as `FAILED_TIMEOUT` or `DLQ` and publish the message to
the dead-letter queue, each in an order of its own.

An action is one storage operation, one publish or one decision of a request or a consumer, and they
interleave. Whatever else writes a status of the case (a shutdown, a verdict saved by hand) records
none of these two.
-/

namespace ResidentCrm

namespace DeadLetters

open Storage Packets

/-- What `terminal_status` returns. -/
def terminalStatus (files : Files Status) : Option Status :=
  (files.status.filter (·.Terminal)).or (files.casebook.filter (·.Terminal))

/-- The routes of a lane: where the request of either consumer starts, and what its steps do. -/
structure AnalysisLane (π α : Type*) where
  entry : Lane → π
  step : Files Status → π → α → Option (π × Effect Unit)
  answered : π
  refused : π

/-! ## The rejection lane -/

inductive RejectionAct
  | does (a : RouteAct Unit)
  /-- The service gate skips the packet, in the fetch stage or before it is claimed. -/
  | skipped

def rejectionStep (files : Files Status) (p : RoutePhase) :
    RejectionAct → Option (RoutePhase × Effect Unit)
  | .does a => p.step files a
  | .skipped => if p = .fetching ∨ p = .openingStatus then some (.answered, .idle) else none

def rejectionLane : AnalysisLane RoutePhase RejectionAct where
  entry := RoutePhase.entry
  step := rejectionStep
  answered := .answered
  refused := .refused

/-! ## The DLT lane -/

inductive DltPhase
  /-- `fetch_dlt_logs`: the terminal check, the gate with the claim and the fetch, and marking
  `status.json`. -/
  | fetchReads (f : File)
  | fetching | fetchLoads | fetchMarks | fetchQueues
  /-- `analyze_dlt`, up to its investigation. -/
  | opening (f : File)
  | readingClaim | gating
  /-- From the corroboration of the logs to the finding. -/
  | investigating
  /-- A finding is there, and the late-result guard reads. -/
  | guards (f : File) (v : Status)
  | savingCasebook (w : Way)
  | savingStatus (w : Way)
  | answered | refused
  deriving DecidableEq, Repr

inductive DltAct
  | reads
  /-- A write, a fetch or a publish; `ok` is whether it goes through. -/
  | proceeds (ok : Bool)
  /-- The gate skips the record, or another delivery of it holds the claim. -/
  | skipped
  /-- The finding is there; its action is `NO_ACTION` or another. -/
  | investigated (noAction : Bool)
  /-- The server-side budget is spent before the run or during it. -/
  | outOfBudget
  | raises

namespace DltPhase

/-- `_terminal_status`. -/
def terminalStatusOf (noAction : Bool) : Status :=
  if noAction then .completed else .needsManualReview

def reads (files : Files Status) : DltPhase → Option DltPhase
  | fetchReads f =>
    match found files f with
    | .terminal _ => some answered
    | .next => some (fetchReads .casebook)
    | .nothing => some fetching
  | fetchLoads =>
    match files.status with
    | none | some .logsFetched => some fetchMarks
    | some _ => some fetchQueues
  | opening f =>
    match found files f with
    | .terminal _ => some answered
    | .next => some (opening .casebook)
    | .nothing => some readingClaim
  | guards f v =>
    match found files f with
    | .terminal x => some (if x.Protected then answered else savingCasebook (.finish v))
    | .next => some (guards .casebook v)
    | .nothing => some (savingCasebook (.finish v))
  | _ => none

/-- What follows where the operation goes through. -/
def next : DltPhase → Option (DltPhase × Effect Unit)
  | fetching => some (fetchLoads, .idle)
  | fetchMarks => some (fetchQueues, .saves .status .logsFetched)
  | fetchQueues => some (answered, .idle)
  | readingClaim => some (gating, .idle)
  | gating => some (investigating, .idle)
  | savingCasebook w => some (savingStatus w, .saves .casebook w.writes)
  | savingStatus w => some (answered, .saves .status w.writes)
  | _ => none

def step (files : Files Status) (p : DltPhase) : DltAct → Option (DltPhase × Effect Unit)
  | .reads => (p.reads files).map (·, .idle)
  | .proceeds ok => p.next.map fun x => if ok then x else (refused, .idle)
  | .skipped =>
    if p = fetching ∨ p = readingClaim ∨ p = gating then some (answered, .idle) else none
  | .investigated noAction =>
    if p = investigating then some (guards .status (terminalStatusOf noAction), .idle) else none
  -- recorded and answered; the consumer is taken to have dead-lettered the record
  | .outOfBudget => if p = investigating then some (savingCasebook .timeout, .idle) else none
  | .raises => some (refused, .idle)

end DltPhase

def dltLane : AnalysisLane DltPhase DltAct where
  entry
    | .fast => .fetchReads .status
    | .slow => .opening .status
  step := DltPhase.step
  answered := .answered
  refused := .refused

/-! ## The deliveries of one message -/

structure Delivery (π : Type*) where
  /-- The consumer it is delivered to. -/
  reader : Lane
  listener : ListenerPhase := .deciding
  route : Option π := none
  deriving DecidableEq

structure Case (ι π : Type*) where
  files : Files Status
  /-- The message has been published to the dead-letter queue. -/
  published : Bool
  deliveries : ι → Option (Delivery π)

inductive CaseAction (ι α : Type*)
  | delivered (i : ι) (reader : Lane)
  | consumes (i : ι) (a : ListenerAct)
  | routes (i : ι) (a : α)
  /-- Another writer of the case saves a status that is not protected. -/
  | recorded (f : File) (v : Status)

namespace Case

variable {ι π α : Type*} [DecidableEq ι] [DecidableEq π]

def setDelivery (s : Case ι π) (i : ι) (d : Delivery π) : Case ι π :=
  { s with deliveries := Function.update s.deliveries i (some d) }

def perform (s : Case ι π) : Effect Unit → Case ι π
  | .saves f v => { s with files := s.files.save v f }
  | .deadLetters => { s with published := true }
  | .idle | .queues _ | .dismisses => s

/-- The effect of an operation that may fail. -/
def performIf (s : Case ι π) (ok : Bool) (e : Effect Unit) : Case ι π :=
  if ok then s.perform e else s

/-- The consumer where it has read the message: dead-lettering it where `should_skip` raises, done
with it where a terminal casebook exists, and posting it otherwise. -/
def decides (L : AnalysisLane π α) (s : Case ι π) (d : Delivery π) (ok : Bool) : Delivery π :=
  if ok = false then { d with listener := .deadLettering }
  else if s.files.casebook.any (·.Terminal) then { d with listener := .ended }
  else { d with listener := .waiting, route := some (L.entry d.reader) }

def consumes (L : AnalysisLane π α) (s : Case ι π) (i : ι) (d : Delivery π) :
    ListenerAct → Option (Case ι π)
  | .decides ok =>
    if d.listener = .deciding then some (s.setDelivery i (decides L s d ok)) else none
  | .hears =>
    if d.listener = .waiting ∧ d.route = some L.answered then
      some (s.setDelivery i { d with listener := .ended })
    else if d.listener = .waiting ∧ d.route = some L.refused then
      some (s.setDelivery i { d with listener := .deadLettering })
    else none
  | .timesOut =>
    if d.listener = .waiting then some (s.setDelivery i { d with listener := .savingCasebook })
    else none
  | .saves ok =>
    match d.listener with
    | .savingCasebook =>
      some ((s.performIf ok (.saves .casebook .failedTimeout)).setDelivery i
        { d with listener := if ok then .savingStatus else .deadLettering })
    | .savingStatus =>
      some ((s.performIf ok (.saves .status .failedTimeout)).setDelivery i
        { d with listener := .deadLettering })
    | _ => none
  | .publishes ok =>
    if d.listener = .deadLettering then
      some ((s.performIf ok .deadLetters).setDelivery i { d with listener := .ended })
    else none
  | .dies => some (s.setDelivery i { d with listener := .ended })

def step (L : AnalysisLane π α) (s : Case ι π) : CaseAction ι α → Option (Case ι π)
  | .delivered i reader =>
    if s.deliveries i = none then some (s.setDelivery i { reader := reader }) else none
  | .consumes i a => (s.deliveries i).bind fun d => consumes L s i d a
  | .routes i a =>
    (s.deliveries i).bind fun d => d.route.bind fun p => (L.step s.files p a).map fun x =>
      (s.perform x.2).setDelivery i { d with route := some x.1 }
  | .recorded f v => if v.Protected then none else some (s.perform (.saves f v))

/-- A message not yet delivered, of a case that records no failure. -/
def Fresh (s : Case ι π) : Prop :=
  (∀ f, ∀ v ∈ s.files.load f, ¬ v.Protected) ∧ s.published = false ∧ ∀ i, s.deliveries i = none

def machine (ι : Type*) [DecidableEq ι] (L : AnalysisLane π α) :
    Machine (Case ι π) (CaseAction ι α) where
  start := Fresh
  step := step L

end Case

end DeadLetters

end ResidentCrm
