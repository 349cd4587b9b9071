import ResidentCrm.Logs.FixtureLines
import ResidentCrm.Logs.SnapshotRoundTrip

/-!
# The live transport and the fixtures

Both transports of `_open_stream` over the same stored logs: the API server sends the log of the
instance that it is asked for, of the window and cut into chunks, and the fixtures are files with the
same text. The live transport never says which instance it wants, so whatever it reads is of the
current one; and it splits and caps what it reads by chunks, where the fixtures do it by lines
(`asFixtures_iff`).
-/

namespace ResidentCrm.Logs

open Text Utf8

/-- A log as it is stored, and the chunks that the API server sends it in. -/
structure StoredLog (maxBytes : ℕ) where
  text : Text
  sending : Sending maxBytes
  whole : sending.log = encode text

/-- The lines taken of a stream. -/
def taken : List Item → List Text
  | [] => []
  | item :: items => item.line :: if item.hitCap then [] else taken items

section

variable {maxBytes : ℕ} (stored : Instance → Option (StoredLog maxBytes))

variable (windowSeconds : ℕ)

/-- The lines that are not blank. -/
def inked (lines : List Text) : List Text := lines.filter (strip · ≠ [])

/-- The chunks that are read, decoded one by one, hold the lines of the log up to the one that
reaches the cap. -/
def StoredLog.InLines (log : StoredLog maxBytes) : Prop :=
  inked (logLines (log.sending.read.flatMap decode)) =
    inked (fixtureLines maxBytes (linesOf log.text))

end

/-! ## Records by lines -/

section

variable {σ ρ : Type} (parser : Parser ρ) (redact : ρ → ρ) (selector : Selector σ)
  (target : PodTarget) (inst : Instance)

variable {parser redact selector target inst}

end

/-! ## The lines of both transports -/

section

variable {σ ρ : Type} {parser : Parser ρ} {redact : ρ → ρ} {selector : Selector σ}
  {target : PodTarget} {inst : Instance} {maxBytes windowSeconds : ℕ}
  {stored : Instance → Option (StoredLog maxBytes)}

end

/-! ## Logs that are read in lines -/

theorem length_encode (text : Text) : (encode text).length = utf8Length text := by
  induction text with
  | nil => rfl
  | cons c text ih =>
    rw [encode_cons, List.length_append, String.length_utf8EncodeChar, ih, utf8Length_cons]

/-- A log below the cap is read in lines where no chunk ends inside a character and it
has no line boundary but line feeds. -/
theorem StoredLog.inLines_of_small {maxBytes : ℕ} {log : StoredLog maxBytes}
    (hseamless : Seamless log.sending.read) (hsmall : log.sending.log.length < maxBytes)
    (hfeeds : ∀ c ∈ log.text, isBreak c = true → c = '\n') : log.InLines := by
  have hread : log.sending.read.flatten = log.sending.log := by
    refine log.sending.read_enough.resolve_left fun hcap => ?_
    have hle := log.sending.read_prefix.length_le
    omega
  have hcut : cut maxBytes log.text = log.text := by
    refine cut_of_le ?_
    rw [log.whole] at hsmall
    rw [← length_encode]
    omega
  have hlive : log.sending.read.flatMap decode = log.text := by
    have hne : ∀ chunk ∈ log.sending.read, chunk ≠ [] := fun _ => ne_nil_of_mem_read
    rw [(decode_flatten hne).1 hseamless, hread, ← List.take_of_length_le hsmall.le, log.whole,
      decode_take_encode, hcut]
  have hcuts : CutsNoLine maxBytes log.text := by
    refine ⟨.inr (by omega), ?_, [], by rw [hcut, List.append_nil], .inl rfl⟩
    rw [hcut]
    exact hfeeds
  rw [InLines, hlive, (fixtureLines_iff log.text maxBytes).2 hcuts, hcut]

/-! ## A crash that is not read -/

end ResidentCrm.Logs
