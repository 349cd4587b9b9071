import ResidentCrm.Lib.Machine
import ResidentCrm.Storage.Casebook
import Mathlib.Logic.Function.Basic
import Mathlib.Order.Lattice

/-!
# The packet claim

`utils/packet_claims.py`: `_claim` step by step, for any number of calls on one event. A call reads
the clock, tries the create-only write, and otherwise loads `claim.json`, reads when the run was
abandoned from `casebook.json`, and may take the claim over with a plain save. Each of these is one
storage operation and the calls interleave; meanwhile shutdowns record abandonments and runs write
the packet's files. Clocks are whatever the processes read: no call's clock is tied to another's.
-/

namespace ResidentCrm

namespace Packets

open Storage

variable {ι T : Type*}

/-- What of a packet's file the claim reads: the status, and `abandoned_at` where it is stamped. -/
structure Document (T : Type*) where
  status : Status
  abandonedAt : Option T
  deriving DecidableEq

/-- `claim.json`. `serial` and `period` are not in the file: the takes and the abandonments before
it was written. -/
structure ClaimRecord (T : Type*) where
  claimedAt : T
  serial : ℕ
  period : ℕ
  deriving DecidableEq

inductive Outcome
  | won | reclaimed | finished | duplicate
  deriving DecidableEq, Repr

structure Held (T : Type*) where
  now : T
  existing : Option (ClaimRecord T)
  deriving DecidableEq

inductive ClaimPhase (T : Type*)
  | idle
  | creating (now : T)
  | loading (now : T)
  | readingAbandonment (c : Held T)
  | takingOver (c : Held T)
  | checkingFinished (c : Held T)
  | reclaimingStale (c : Held T)
  | answered (o : Outcome)
  deriving DecidableEq

/-- The packet's claim and files, the calls, and what has happened so far. -/
structure Desk (ι T : Type*) where
  claim : Option (ClaimRecord T)
  files : Files (Document T)
  calls : ι → ClaimPhase T
  abandonments : ℕ
  /-- The period of each winning call, the latest first. -/
  wins : List ℕ

inductive ClaimAction (ι T : Type*)
  | starts (call : ι) (now : T)
  | creates (call : ι)
  | loads (call : ι)
  /-- `ok` is false where the casebook store raises; the call goes on without the answer. -/
  | readsAbandonment (call : ι) (ok : Bool)
  | takesOver (call : ι)
  | checksFinished (call : ι) (ok : Bool)
  | reclaims (call : ι)
  /-- A shutdown records `FAILED_SHUTDOWN` with its `abandoned_at`. -/
  | abandons (stamp : T)
  /-- A run, or anyone else, saves one of the packet's files. -/
  | writes (f : File) (status : Status)

namespace Held

variable [Zero T]

/-- `float(existing.get("claimed_at") or 0.0)`. -/
def claimedAt (c : Held T) : T := (c.existing.map ClaimRecord.claimedAt).getD 0

end Held

namespace Desk

variable [DecidableEq ι] [LinearOrder T] [Sub T] [Zero T]

def setCall (s : Desk ι T) (call : ι) (p : ClaimPhase T) : Desk ι T :=
  { s with calls := Function.update s.calls call p }

/-- A call writes its claim and answers. -/
def take (s : Desk ι T) (call : ι) (now : T) (o : Outcome) : Desk ι T :=
  { s.setCall call (.answered o) with
    claim := some ⟨now, s.wins.length, s.abandonments⟩
    wins := s.abandonments :: s.wins }

/-- `_abandoned_at`: the stamp of a casebook that is redeliverable. -/
def abandonedAt (s : Desk ι T) : Option T :=
  match s.files.casebook with
  | some d => if d.status.Redeliverable then d.abandonedAt else none
  | none => none

/-- `terminal_status`: of `status.json` if it is terminal, of `casebook.json` otherwise. -/
def terminalStatus (s : Desk ι T) : Option Status :=
  let terminal (f : File) := ((s.files.load f).map Document.status).filter (·.Terminal)
  (terminal .status).or (terminal .casebook)

def isFinished (s : Desk ι T) : Bool :=
  s.terminalStatus.any fun v => ¬ v.Redeliverable

/-- After the abandonment is read: the holder is the run the shutdown abandoned, or not. -/
def afterAbandonment (c : Held T) (abandoned : Option T) : ClaimPhase T :=
  if abandoned.any (c.claimedAt ≤ ·) then .takingOver c else .checkingFinished c

/-- After the finished check, a claim beyond its time to live is taken over too. -/
def afterFinished (ttl : T) (c : Held T) (finished : Bool) : ClaimPhase T :=
  if finished then .answered .finished
  else if ttl < c.now - c.claimedAt then .reclaimingStale c
  else .answered .duplicate

def step (ttl : T) (s : Desk ι T) : ClaimAction ι T → Option (Desk ι T)
  | .starts call now =>
    match s.calls call with
    | .idle => some (s.setCall call (.creating now))
    | _ => none
  | .creates call =>
    match s.calls call with
    | .creating now =>
      -- `create_json` is create-only: of any number of calls, one.
      if s.claim = none then some (s.take call now .won)
      else some (s.setCall call (.loading now))
    | _ => none
  | .loads call =>
    match s.calls call with
    | .loading now => some (s.setCall call (.readingAbandonment ⟨now, s.claim⟩))
    | _ => none
  | .readsAbandonment call ok =>
    match s.calls call with
    | .readingAbandonment c =>
      some (s.setCall call (afterAbandonment c (if ok then s.abandonedAt else none)))
    | _ => none
  | .takesOver call =>
    match s.calls call with
    | .takingOver c => some (s.take call c.now .reclaimed)
    | _ => none
  | .checksFinished call ok =>
    match s.calls call with
    | .checkingFinished c => some (s.setCall call (afterFinished ttl c (ok && s.isFinished)))
    | _ => none
  | .reclaims call =>
    match s.calls call with
    | .reclaimingStale c => some (s.take call c.now .reclaimed)
    | _ => none
  | .abandons stamp =>
    some { s with
      files := s.files.save ⟨.failedShutdown, some stamp⟩ .casebook
      abandonments := s.abandonments + 1 }
  | .writes f v => some { s with files := s.files.save ⟨v, none⟩ f }

/-- A packet nobody has claimed and no shutdown has abandoned. -/
def Unclaimed (s : Desk ι T) : Prop :=
  s.claim = none ∧ (∀ call, s.calls call = .idle) ∧ s.abandonedAt = none ∧
    s.abandonments = 0 ∧ s.wins = []

/-- `_claim` called any number of times, claims going stale after `ttl`. -/
def machine (ι : Type*) [DecidableEq ι] {T : Type*} [LinearOrder T] [Sub T] [Zero T] (ttl : T) :
    Machine (Desk ι T) (ClaimAction ι T) where
  start := Unclaimed
  step := step ttl

end Desk

end Packets

end ResidentCrm
