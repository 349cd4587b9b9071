import Mathlib.Data.List.Basic
import Mathlib.Tactic.Common

/-!
# Statuses and the two files of a casebook

`storage/base.py` and `storage/local.py`: the statuses a packet's files carry, and the pair
`casebook.json`, `status.json` that `save_terminal` writes one after the other. Each file keeps the
entry last written to it; of a document only its `packet_status.status` is kept.
-/

namespace ResidentCrm

namespace Storage

inductive Status
  | completed | rejected | needsManualReview | failedPermanent | dlq | failedTimeout
  | failedSynthesisParse | failedShutdown | logsFetched | inProgress
  deriving DecidableEq, Repr

namespace Status

def terminalStatuses : List Status :=
  [completed, rejected, needsManualReview, failedPermanent, dlq, failedTimeout,
    failedSynthesisParse, failedShutdown]

def protectedTerminalStatuses : List Status := [failedTimeout, dlq]

def redeliverableTerminalStatuses : List Status := [failedShutdown]

/-- `INVESTIGATED_STATUSES`: what the contract lets a finished casebook carry. -/
def investigatedStatuses : List Status := [rejected, needsManualReview, failedSynthesisParse]

abbrev Terminal (v : Status) : Prop := v ∈ terminalStatuses

abbrev Protected (v : Status) : Prop := v ∈ protectedTerminalStatuses

abbrev Redeliverable (v : Status) : Prop := v ∈ redeliverableTerminalStatuses

abbrev Investigated (v : Status) : Prop := v ∈ investigatedStatuses

theorem Investigated.not_protected {v : Status} (h : v.Investigated) : ¬ v.Protected := by
  revert h
  cases v <;> decide

end Status

/-- The two files of one event, each with the entry last saved in it. -/
structure Files (ε : Type*) where
  casebook : Option ε
  status : Option ε
  deriving DecidableEq, Repr

inductive File
  | casebook | status
  deriving DecidableEq, Repr

namespace Files

variable {ε : Type*}

def load (s : Files ε) : File → Option ε
  | .casebook => s.casebook
  | .status => s.status

/-- `save`: the file is replaced at once, under its lock. -/
def save (s : Files ε) (e : ε) : File → Files ε
  | .casebook => { s with casebook := some e }
  | .status => { s with status := some e }

@[simp] theorem save_casebook_casebook (s : Files ε) (e : ε) :
    (s.save e .casebook).casebook = some e := rfl

@[simp] theorem save_casebook_status (s : Files ε) (e : ε) :
    (s.save e .casebook).status = s.status := rfl

@[simp] theorem save_status_status (s : Files ε) (e : ε) :
    (s.save e .status).status = some e := rfl

@[simp] theorem save_status_casebook (s : Files ε) (e : ε) :
    (s.save e .status).casebook = s.casebook := rfl

end Files

end Storage

end ResidentCrm
