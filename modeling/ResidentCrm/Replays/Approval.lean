import ResidentCrm.Lib.Machine
import ResidentCrm.Lib.Text
import ResidentCrm.Messages.MessagePayload

/-!
# Replays that await approval

`_queue_pending_replay` of `tools/tool_registry.py` and `tools/approve_replays.py`. Agents nominate
packets, each into the document of its packet; operators go through what is pending, and a replay
that is approved is posted and its document marked. A step is one access to the storage or the file,
or one answer of an operator; a session may end at any of them.

Nominations are numbered as they come, and a document, an entry and a post say which one they are
of. `readLine` reads a line of the old local queue; lines it does not read are skipped and kept, and
are left out here.
-/

namespace ResidentCrm.Replays

open Messages (isEventId)

/-- What `queue_for_replay` is given. -/
structure Payload where
  id : Text
  idType : Text
  priority : ℤ
  operatorName : Text
  category : Text
  fromSedaStart : Bool
deriving DecidableEq

inductive Outcome where
  | replayed
  | discarded
deriving DecidableEq

/-- `pending_replay.json` of a packet; it is pending where it has no outcome. -/
structure Document where
  nomination : ℕ
  timestamp : Text
  payload : Payload
  outcome : Option Outcome
deriving DecidableEq

/-- Where a nomination is kept: in the document of a key, or in a line of the old queue. -/
inductive Origin where
  | stored (key : Text)
  | line (text : Text)
deriving DecidableEq

/-- A pending replay as a session has read it. -/
structure Entry where
  nomination : ℕ
  timestamp : Text
  payload : Payload
  origin : Origin
deriving DecidableEq

/-- Where a session is. -/
inductive Phase where
  | away
  /-- In `_load_pending`: the keys that are not read yet. -/
  | loading (keys : List Text) (entries : List Entry)
  | asking (entries : List Entry)
  /-- In `_resolve`. -/
  | resolving (entry : Entry) (outcome : Outcome) (rest : List Entry)
deriving DecidableEq

namespace Phase

/-- The entries that are not decided yet. -/
def entries : Phase → List Entry
  | away => []
  | loading _ entries | asking entries => entries
  | resolving _ _ rest => rest

/-- The entry that is decided and not marked. -/
def inHand : Phase → List (Entry × Outcome)
  | resolving entry outcome _ => [(entry, outcome)]
  | _ => []

end Phase

/-- A run of the command: its filter, which may be empty, whether it approves all, and the lines
that are done with. -/
structure Session where
  phase : Phase
  filter : Text := []
  approveAll : Bool := false
  consumed : List Text := []
deriving DecidableEq

/-- A request to the replay endpoint, and whether it was accepted. -/
structure Post where
  nomination : ℕ
  payload : Payload
  accepted : Bool
deriving DecidableEq

structure State (ι : Type*) where
  documents : Text → Option Document
  legacy : List (ℕ × Text)
  sessions : ι → Session
  /-- What was nominated, in order. -/
  nominated : List (Origin × Payload)
  posts : List Post
  /-- The nominations that an operator said no to. -/
  refused : List ℕ

inductive Action (ι : Type*) where
  /-- An agent nominates a packet; the document may not be saved. -/
  | queue (payload : Payload) (timestamp : Text) (saved : Bool)
  /-- A line comes into the old queue. -/
  | append (line : Text)
  /-- A session lists the documents. -/
  | start (i : ι) (filter : Text) (approveAll : Bool) (keys : List Text)
  /-- It reads the next, or the old queue after them. -/
  | load (i : ι) (got : Bool)
  | answer (i : ι) (input : Text) (accepted : Bool)
  | resolve (i : ι) (saved : Bool)
  | finish (i : ι)
  | crash (i : ι)

section

variable {ι : Type*} [DecidableEq ι]

namespace State

def setSession (s : State ι) (i : ι) (session : Session) : State ι :=
  { s with sessions := Function.update s.sessions i session }

def goto (s : State ι) (i : ι) (phase : Phase) : State ι :=
  s.setSession i { s.sessions i with phase := phase }

def setDocument (s : State ι) (key : Text) (d : Document) : State ι :=
  { s with documents := Function.update s.documents key (some d) }

def nominate (s : State ι) (origin : Origin) (payload : Payload) : State ι :=
  { s with nominated := s.nominated ++ [(origin, payload)] }

def post (s : State ι) (entry : Entry) (accepted : Bool) : State ι :=
  { s with posts := s.posts ++ [⟨entry.nomination, entry.payload, accepted⟩] }

def refuse (s : State ι) (entry : Entry) : State ι :=
  { s with refused := s.refused ++ [entry.nomination] }

end State

variable (readLine : Text → Option (Text × Payload))

/-- `_queue_pending_replay` -/
def queue (s : State ι) (payload : Payload) (timestamp : Text) (saved : Bool) : State ι :=
  if isEventId payload.id.strip && saved then
    (s.setDocument payload.id.strip ⟨s.nominated.length, timestamp, payload, none⟩).nominate
      (.stored payload.id.strip) payload
  else s

/-- The entry of a document that is pending. -/
def entryOf (documents : Text → Option Document) (key : Text) : Option Entry :=
  ((documents key).filter (·.outcome = none)).map fun d =>
    ⟨d.nomination, d.timestamp, d.payload, .stored key⟩

/-- `_load_legacy` -/
def loadLegacy (legacy : List (ℕ × Text)) : List Entry :=
  legacy.filterMap fun (nomination, line) =>
    (readLine line.strip).map fun (timestamp, payload) =>
      (⟨nomination, timestamp, payload, .line line.strip⟩ : Entry)

/-- What an operator says. -/
def Session.action (session : Session) (input : Text) : Text :=
  if session.approveAll then "y".toList else input.strip.lower

/-- An operator is asked about the next entry. -/
def answer (s : State ι) (i : ι) (input : Text) (accepted : Bool) : Option (State ι) :=
  match (s.sessions i).phase with
  | .asking (entry :: rest) =>
    if (s.sessions i).filter ≠ [] ∧ (s.sessions i).filter.lower ≠ entry.payload.category.lower then
      some (s.goto i (.asking rest))
    else if (s.sessions i).action input = "y".toList then
      some ((s.post entry accepted).goto i
        (if accepted then .resolving entry .replayed rest else .asking rest))
    else if (s.sessions i).action input = "n".toList then
      some ((s.refuse entry).goto i (.resolving entry .discarded rest))
    else some (s.goto i (.asking rest))
  | _ => none

/-- `_resolve`. A document that cannot be saved stays pending: after a post this is reported, and
after a refusal it ends the session. -/
def resolve (s : State ι) (i : ι) (saved : Bool) : Option (State ι) :=
  match (s.sessions i).phase with
  | .resolving entry outcome rest =>
    match entry.origin with
    | .line text =>
      some (s.setSession i { s.sessions i with
        phase := .asking rest, consumed := (s.sessions i).consumed ++ [text] })
    | .stored key =>
      if saved then
        some ((s.setDocument key
          ⟨entry.nomination, entry.timestamp, entry.payload, some outcome⟩).goto i (.asking rest))
      else if outcome = .replayed then some (s.goto i (.asking rest))
      else some (s.setSession i { phase := .away })
  | _ => none

def step (s : State ι) : Action ι → Option (State ι)
  | .queue payload timestamp saved => some (queue s payload timestamp saved)
  | .append line =>
    (readLine line.strip).map fun (_, payload) =>
      { s.nominate (.line line.strip) payload with
        legacy := s.legacy ++ [(s.nominated.length, line)] }
  | .start i filter approveAll keys =>
    if (s.sessions i).phase = .away ∧ keys.Nodup then
      some (s.setSession i ⟨.loading keys [], filter, approveAll, []⟩)
    else none
  | .load i got =>
    match (s.sessions i).phase with
    | .loading (key :: keys) entries =>
      let found := if got then entryOf s.documents key else none
      some (s.goto i (.loading keys (entries ++ found.toList)))
    | .loading [] entries =>
      some (s.goto i (.asking (entries ++ loadLegacy readLine s.legacy)))
    | _ => none
  | .answer i input accepted => answer s i input accepted
  | .resolve i saved => resolve s i saved
  | .finish i =>
    if (s.sessions i).phase = .asking [] then
      some { s.setSession i { phase := .away } with
        legacy := s.legacy.filter (·.2.strip ∉ (s.sessions i).consumed) }
    else none
  | .crash i => some (s.setSession i { phase := .away })

/-- Nothing was nominated and no session runs. -/
def AtStart (s : State ι) : Prop :=
  (∀ key, s.documents key = none) ∧ s.legacy = [] ∧ (∀ i, s.sessions i = { phase := .away }) ∧
    s.nominated = [] ∧ s.posts = [] ∧ s.refused = []

def approvals : Machine (State ι) (Action ι) where
  start := AtStart
  step := step readLine

end

end ResidentCrm.Replays
