import ResidentCrm.Lib.Machine
import ResidentCrm.Storage.TerminalRace
import Mathlib.Logic.Function.Basic

/-!
# Shutdowns and redeliveries of one packet

One rejected packet of an enabled service as its deliveries see it: the consumers
(`should_skip`, `_process_and_commit`), the routes they post to (`/fetch-logs` and
`/analyze-rejection`) and the shutdowns of the API (`drain_and_shutdown`). A message is one Kafka
record of the packet, in the rejections topic or in the analysis queue; it may be delivered any
number of times, and stays pending until a delivery of it is acknowledged or dead-lettered. An
action is one storage operation or one decision of a consumer, a request or a shutdown, and they
interleave; a request may die, and so may the consumer that waits for it.

The claim (`Packets/Claims`) is here only its answer, and so is the graph.
-/

namespace ResidentCrm

namespace Packets

open Storage

/-- The rejections topic, which the fast consumer reads, or the analysis queue. -/
inductive Lane
  | fast | slow
  deriving DecidableEq, Repr

structure Message (ρ : Type*) where
  lane : Lane
  id : ρ
  deriving DecidableEq

/-- Handled: some delivery of it was acknowledged, or dead-lettered. -/
inductive MessageState
  | unsent | pending | handled
  deriving DecidableEq, Repr

/-- What `terminal_status` has found once it has read a file: a terminal status, that it has to read
the other one, or nothing. -/
inductive Found
  | terminal (v : Status) | next | nothing
  deriving DecidableEq, Repr

def found (files : Files Status) (f : File) : Found :=
  match (files.load f).filter (·.Terminal), f with
  | some v, _ => .terminal v
  | none, .status => .next
  | none, .casebook => .nothing

/-! ## The routes -/

inductive RoutePhase
  | unposted
  /-- `fetch_logs`: the terminal check, the fetch, and marking `status.json`. -/
  | fetchReads (f : File)
  | fetching | fetchLoads | fetchMarks | fetchQueues
  /-- `_investigate_packet`, up to its stub. -/
  | opening | openingStatus | claiming
  | claimReads (f : File)
  | claimHeld | stubbing | running
  /-- A result is there, and the late-result guard reads. -/
  | guards (f : File) (v : Status)
  | savingCasebook (w : Way)
  | savingStatus (w : Way)
  /-- The timeout is recorded, and about to be dead-lettered. -/
  | timedOut
  /-- An exception is about to be dead-lettered, and then recorded. -/
  | failing
  /-- `_await_run_in_flight`. -/
  | awaiting (f : File)
  | answered | refused
  deriving DecidableEq, Repr

inductive RouteAct (ρ : Type*)
  | reads
  /-- A write, a fetch or a publish; `ok` is whether it goes through. -/
  | proceeds (ok : Bool)
  | queues (id : ρ) (ok : Bool)
  | readsStub (stale : Bool)
  | claims (won : Bool)
  | graphReturns (v : Status)
  | graphTimesOut | graphRaises
  | givesUp | dies

inductive Effect (ρ : Type*)
  | idle
  | saves (f : File) (v : Status)
  | deadLetters
  | queues (id : ρ)
  /-- The request is answered because a file carries `FAILED_SHUTDOWN`. -/
  | dismisses

namespace RoutePhase

variable {ρ : Type*}

/-- The request is answered on a terminal status it has read. -/
def answer (v : Status) : RoutePhase × Effect ρ :=
  (answered, if v = .failedShutdown then .dismisses else .idle)

def onRaise : Way → RoutePhase
  | .timeout => failing
  | .finish _ | .failed => refused

def onSaved : Way → RoutePhase
  | .timeout => timedOut
  | .finish _ | .failed => answered

def reads (files : Files Status) : RoutePhase → Option (RoutePhase × Effect ρ)
  | fetchReads f =>
    match found files f with
    | .terminal v => some (answer v)
    | .next => some (fetchReads .casebook, .idle)
    | .nothing => some (fetching, .idle)
  | fetchLoads =>
    -- only from nothing or `LOGS_FETCHED` is `status.json` advanced
    match files.status with
    | none | some .logsFetched => some (fetchMarks, .idle)
    | some _ => some (fetchQueues, .idle)
  | opening =>
    if files.casebook.any fun v => v.Terminal ∧ ¬ v.Redeliverable then some (answered, .idle)
    else some (openingStatus, .idle)
  | claimReads f =>
    match found files f with
    | .terminal v => some (if v.Redeliverable then claimHeld else answered, .idle)
    | .next => some (claimReads .casebook, .idle)
    | .nothing => some (claimHeld, .idle)
  | guards f v =>
    match found files f with
    | .terminal x => some (if x.Protected then answered else savingCasebook (.finish v), .idle)
    | .next => some (guards .casebook v, .idle)
    | .nothing => some (savingCasebook (.finish v), .idle)
  | awaiting f =>
    match found files f with
    | .terminal v => some (answer v)
    | .next => some (awaiting .casebook, .idle)
    | .nothing => some (awaiting .status, .idle)
  | _ => none

def proceeds (ok : Bool) : RoutePhase → Option (RoutePhase × Effect ρ)
  | fetching => some (if ok then fetchLoads else refused, .idle)
  | fetchMarks => some (if ok then (fetchQueues, .saves .status .logsFetched) else (refused, .idle))
  | stubbing => some (if ok then (running, .saves .status .inProgress) else (refused, .idle))
  | savingCasebook w =>
    some (if ok ∧ w.Checked then (savingStatus w, .saves .casebook w.writes)
      else (onRaise w, .idle))
  | savingStatus w => some (if ok then (onSaved w, .saves .status w.writes) else (onRaise w, .idle))
  -- the publish is best effort
  | timedOut => some (answered, if ok then .deadLetters else .idle)
  | failing => some (savingCasebook .failed, if ok then .deadLetters else .idle)
  | _ => none

def step (files : Files Status) (p : RoutePhase) : RouteAct ρ → Option (RoutePhase × Effect ρ)
  | .reads => p.reads files
  | .proceeds ok => p.proceeds ok
  | .queues id ok =>
    if p = fetchQueues then some (if ok then (answered, .queues id) else (refused, .idle)) else none
  | .readsStub stale =>
    if p = openingStatus then
      some (if files.status = some .inProgress ∧ stale = false then awaiting .status else claiming,
        .idle)
    else none
  | .claims won =>
    match p with
    | claiming => some (if won then stubbing else claimReads .status, .idle)
    -- held, or the store raises where it reads whether the packet is finished
    | claimHeld | claimReads _ => some (if won then stubbing else awaiting .status, .idle)
    | _ => none
  | .graphReturns v => if p = running then some (guards .status v, .idle) else none
  | .graphTimesOut => if p = running then some (savingCasebook .timeout, .idle) else none
  | .graphRaises => if p = running then some (failing, .idle) else none
  | .givesUp => if p = awaiting .status then some (refused, .idle) else none
  | .dies => if p = unposted then none else some (refused, .idle)

/-- `_tracked_in_flight` counts the request. -/
def inFlight : RoutePhase → Bool
  | unposted | fetchReads _ | fetching | fetchLoads | fetchMarks | fetchQueues | answered
  | refused => false
  | _ => true

/-- The file whose terminal status, whichever it is, the request is about to answer on. -/
def trusts : RoutePhase → Option File
  | fetchReads f | awaiting f => some f
  | _ => none

def entry : Lane → RoutePhase
  | .fast => fetchReads .status
  | .slow => opening

end RoutePhase

/-! ## The consumers and the shutdowns -/

inductive ListenerPhase
  | deciding | waiting
  /-- `FAILED_TIMEOUT` is about to be recorded. -/
  | savingCasebook | savingStatus
  | deadLettering | ended
  deriving DecidableEq, Repr

structure Delivery (ρ : Type*) where
  message : Message ρ
  listener : ListenerPhase := .deciding
  route : RoutePhase := .unposted
  deriving DecidableEq

inductive DrainPhase
  | idle
  | reads (f : File)
  | savesCasebook | savesStatus
  deriving DecidableEq, Repr

structure Packet (ι δ ρ : Type*) where
  files : Files Status
  deadLettered : Bool
  messages : Message ρ → MessageState
  deliveries : ι → Option (Delivery ρ)
  drains : δ → DrainPhase
  /-- Whether a delivery was skipped or answered because a file carried `FAILED_SHUTDOWN`. -/
  dismissed : Bool

inductive ListenerAct
  | decides (ok : Bool)
  | hears | timesOut
  | saves (ok : Bool)
  | publishes (ok : Bool)
  | dies

inductive PacketAction (ι δ ρ : Type*)
  /-- The packet is published to the rejections topic, perhaps again. -/
  | produced (id : ρ)
  | delivered (i : ι) (m : Message ρ)
  | consumes (i : ι) (a : ListenerAct)
  | routes (i : ι) (a : RouteAct ρ)
  /-- A shutdown finds request `i` in flight. -/
  | drainStarts (d : δ) (i : ι)
  | drainReads (d : δ)
  | drainSaves (d : δ) (ok : Bool)

namespace Packet

variable {ι δ ρ : Type*} [DecidableEq ι] [DecidableEq δ] [DecidableEq ρ]

def setDelivery (s : Packet ι δ ρ) (i : ι) (d : Delivery ρ) : Packet ι δ ρ :=
  { s with deliveries := Function.update s.deliveries i (some d) }

def setMessage (s : Packet ι δ ρ) (m : Message ρ) (x : MessageState) : Packet ι δ ρ :=
  { s with messages := Function.update s.messages m x }

def setDrain (s : Packet ι δ ρ) (d : δ) (p : DrainPhase) : Packet ι δ ρ :=
  { s with drains := Function.update s.drains d p }

def perform (s : Packet ι δ ρ) : Effect ρ → Packet ι δ ρ
  | .idle => s
  | .saves f v => { s with files := s.files.save v f }
  | .deadLetters => { s with deadLettered := true }
  | .queues id => s.setMessage ⟨.slow, id⟩ .pending
  | .dismisses => { s with dismissed := true }

/-- The packet on the analysis queue is a record of its own. -/
def Fresh (s : Packet ι δ ρ) : RouteAct ρ → Prop
  | .queues id _ => s.messages ⟨.slow, id⟩ = .unsent
  | _ => True

instance (s : Packet ι δ ρ) : DecidablePred s.Fresh
  | .queues id _ => inferInstanceAs (Decidable (s.messages ⟨.slow, id⟩ = .unsent))
  | .reads | .proceeds _ | .readsStub _ | .claims _ | .graphReturns _ | .graphTimesOut
  | .graphRaises | .givesUp | .dies => .isTrue trivial

/-- The consumer is done with a delivery, and its record with it. -/
def settle (s : Packet ι δ ρ) (i : ι) (d : Delivery ρ) : Packet ι δ ρ :=
  (s.setMessage d.message .handled).setDelivery i { d with listener := .ended }

/-- `should_skip`: a terminal casebook exists. -/
def skips (s : Packet ι δ ρ) : Bool := s.files.casebook.any (·.Terminal)

/-- A message is skipped, posted, or dead-lettered where `should_skip` raises. -/
def decides (s : Packet ι δ ρ) (i : ι) (d : Delivery ρ) (ok : Bool) : Packet ι δ ρ :=
  if ok = false then s.setDelivery i { d with listener := .deadLettering }
  else if s.skips then
    { s.settle i d with dismissed := s.dismissed || s.files.casebook = some .failedShutdown }
  else s.setDelivery i { d with listener := .waiting, route := .entry d.message.lane }

def consumes (s : Packet ι δ ρ) (i : ι) (d : Delivery ρ) : ListenerAct → Option (Packet ι δ ρ)
  | .decides ok => if d.listener = .deciding then some (s.decides i d ok) else none
  | .hears =>
    if d.listener = .waiting then
      match d.route with
      | .answered => some (s.settle i d)
      | .refused => some (s.setDelivery i { d with listener := .deadLettering })
      | _ => none
    else none
  | .timesOut =>
    if d.listener = .waiting then some (s.setDelivery i { d with listener := .savingCasebook })
    else none
  | .saves ok =>
    match d.listener with
    | .savingCasebook =>
      if ok then
        some ((s.perform (.saves .casebook .failedTimeout)).setDelivery i
          { d with listener := .savingStatus })
      else some (s.setDelivery i { d with listener := .deadLettering })
    | .savingStatus =>
      some ((s.perform (if ok then .saves .status .failedTimeout else .idle)).setDelivery i
        { d with listener := .deadLettering })
    | _ => none
  | .publishes ok =>
    if d.listener = .deadLettering then
      -- where the publish fails the offset is held, and the message stays pending
      some (if ok then (s.perform .deadLetters).settle i d
        else s.setDelivery i { d with listener := .ended })
    else none
  | .dies => some (s.setDelivery i { d with listener := .ended })

def drainReads (s : Packet ι δ ρ) (d : δ) : Option (Packet ι δ ρ) :=
  match s.drains d with
  | .reads f =>
    match found s.files f with
    | .terminal _ => some (s.setDrain d .idle)
    | .next => some (s.setDrain d (.reads .casebook))
    | .nothing => some (s.setDrain d .savesCasebook)
  | _ => none

def drainSaves (s : Packet ι δ ρ) (d : δ) (ok : Bool) : Option (Packet ι δ ρ) :=
  match s.drains d with
  | .savesCasebook =>
    some (if ok then (s.perform (.saves .casebook .failedShutdown)).setDrain d .savesStatus
      else s.setDrain d .idle)
  | .savesStatus =>
    some ((s.perform (if ok then .saves .status .failedShutdown else .idle)).setDrain d .idle)
  | _ => none

def step (s : Packet ι δ ρ) : PacketAction ι δ ρ → Option (Packet ι δ ρ)
  | .produced id =>
    if s.messages ⟨.fast, id⟩ = .unsent then some (s.setMessage ⟨.fast, id⟩ .pending) else none
  | .delivered i m =>
    if s.deliveries i = none ∧ s.messages m ≠ .unsent then some (s.setDelivery i { message := m })
    else none
  | .consumes i a => (s.deliveries i).bind fun d => s.consumes i d a
  | .routes i a =>
    if s.Fresh a then
      (s.deliveries i).bind fun d => (d.route.step s.files a).map fun x =>
        (s.perform x.2).setDelivery i { d with route := x.1 }
    else none
  | .drainStarts d i =>
    if s.drains d = .idle ∧ (s.deliveries i).any (·.route.inFlight) then
      some (s.setDrain d (.reads .status))
    else none
  | .drainReads d => s.drainReads d
  | .drainSaves d ok => s.drainSaves d ok

/-- A packet that has been published and not yet delivered. -/
def Published (s : Packet ι δ ρ) : Prop :=
  s.files = ⟨none, none⟩ ∧ s.deadLettered = false ∧ (∃ m, s.messages m = .pending) ∧
    (∀ i, s.deliveries i = none) ∧ s.dismissed = false

def machine (ι δ ρ : Type*) [DecidableEq ι] [DecidableEq δ] [DecidableEq ρ] :
    Machine (Packet ι δ ρ) (PacketAction ι δ ρ) where
  start := Published
  step := step

end Packet

end Packets

end ResidentCrm
