import ResidentCrm.Lib.Split
import ResidentCrm.Lib.Utf8
import ResidentCrm.Logs.Coverage

/-!
# Logs in chunks

The reader of a streamed response against the log that is sent: the bytes of each chunk are decoded
by themselves and split into lines with a carry buffer. The lines are those of the log up to the cap
where no chunk ends inside a character and the last one has nothing past the cap
(`Sending.lines_iff`); what is not read is announced where the last byte read ends no line
(`announced_iff`).
-/

namespace ResidentCrm.Logs

open Text Utf8

/-! ## Responses of bytes -/

/-- A chunk of `response.stream`, decoded by itself. -/
def chunkOf (bytes : Bytes) : Chunk := ⟨bytes.length, decode bytes⟩

/-- The chunks that are read: up to the one that reaches the cap. -/
def chunksRead (maxBytes : ℕ) : (total : ℕ) → List Bytes → List Bytes
  | _, [] => []
  | total, chunk :: chunks =>
    if chunk = [] then chunksRead maxBytes total chunks
    else if maxBytes ≤ total + chunk.length then [chunk]
    else chunk :: chunksRead maxBytes (total + chunk.length) chunks

/-- A log and the chunks that it is sent in: all of it, or as much of it as the cap wants. -/
structure Sending (maxBytes : ℕ) where
  log : Bytes
  chunks : List Bytes
  sent : chunks.flatten <+: log
  enough : chunks.flatten = log ∨ maxBytes ≤ chunks.flatten.length

namespace Sending

variable {maxBytes : ℕ} (sending : Sending maxBytes)

def response : Response := ⟨sending.chunks.map chunkOf, none⟩

def items : List Item := (sending.response.stream maxBytes).items

def read : List Bytes := chunksRead maxBytes 0 sending.chunks

end Sending

/-- The lines of a log; a line break ends the line before it. -/
def logLines (text : Text) : List Text :=
  let pieces := text.splitOn '\n'
  if pieces.getLast? = some [] then pieces.dropLast else pieces

/-- The lines of the decoded log up to the cap. -/
def linesUpTo (maxBytes : ℕ) (log : Bytes) : List Text := logLines (decode (log.take maxBytes))

/-! ## Lines -/

/-- A text with its last line ended. -/
def terminated (text : Text) : Text :=
  if text = [] ∨ text.getLast? = some '\n' then text else text ++ ['\n']

theorem logLines_ended {lines : List Text} (h : ∀ l ∈ lines, '\n' ∉ l) (s : Text) :
    logLines (ended lines ++ s) = lines ++ logLines s := by
  have hne := List.splitOn_ne_nil '\n' s
  simp only [logLines]
  rw [splitOn_ended h, List.getLast?_append_of_ne_nil _ hne]
  split
  · rw [List.dropLast_append_of_ne_nil hne]
  · rfl

theorem logLines_begun {begun : Text} (h : '\n' ∉ begun) :
    logLines begun = if begun = [] then [] else [begun] := by
  simp only [logLines]
  rw [List.splitOn_eq_singleton h]
  by_cases hnil : begun = []
  · rw [hnil]
    rfl
  · have hlast : [begun].getLast? ≠ some [] := fun hlast => hnil (Option.some.inj hlast)
    rw [if_neg hnil, if_neg hlast]

theorem terminated_eq (text : Text) : terminated text = ended (logLines text) := by
  obtain ⟨lines, begun, -, rfl, hlines, hbegun⟩ := exists_splitOn text
  rw [logLines_ended hlines, logLines_begun hbegun, terminated]
  by_cases hnil : begun = []
  · rw [hnil, List.append_nil, if_pos rfl, List.append_nil]
    split
    · rfl
    · next hopen =>
      rcases List.eq_nil_or_concat lines with rfl | ⟨earlier, last, rfl⟩
      · exact absurd (.inl rfl) hopen
      · exact absurd (.inr (by simp [ended])) hopen
  · have hlast : (ended lines ++ begun).getLast? ≠ some '\n' := by
      rw [List.getLast?_append_of_ne_nil _ hnil]
      exact fun h => hbegun (List.mem_of_getLast? h)
    have hne : ended lines ++ begun ≠ [] := List.append_ne_nil_of_right_ne_nil _ hnil
    rw [if_neg hnil, if_neg (not_or.2 ⟨hne, hlast⟩)]
    simp [ended]

/-- **Texts have the same lines** where they are the same up to the break that ends the last one. -/
theorem logLines_eq_iff (text text' : Text) :
    logLines text = logLines text' ↔ terminated text = terminated text' := by
  constructor
  · intro h
    rw [terminated_eq, terminated_eq, h]
  · have hterminated : ∀ s : Text, logLines (terminated s) = logLines s := by
      intro s
      obtain ⟨lines, begun, -, rfl, hlines, hbegun⟩ := exists_splitOn s
      have hall : ∀ l ∈ logLines (ended lines ++ begun), '\n' ∉ l := by
        rw [logLines_ended hlines, logLines_begun hbegun]
        intro l hl
        rcases List.mem_append.1 hl with hl | hl
        · exact hlines l hl
        · split at hl
          · cases hl
          · rw [List.mem_singleton.1 hl]
            exact hbegun
      have hempty : logLines [] = [] := rfl
      have hended := logLines_ended hall []
      rwa [List.append_nil, hempty, List.append_nil, ← terminated_eq] at hended
    intro h
    rw [← hterminated text, h, hterminated]

/-! ## What the reader yields -/

theorem map_line_map (lines : List Text) (total : ℕ) (hitCap : Bool) :
    (lines.map fun line => (⟨line, total, hitCap⟩ : Item)).map Item.line = lines := by
  rw [List.map_map]
  exact List.map_id _

section

variable {maxBytes total : ℕ} {chunk : Bytes} (chunks : List Bytes)

theorem chunksRead_last (hchunk : chunk ≠ []) (hcap : maxBytes ≤ total + chunk.length) :
    chunksRead maxBytes total (chunk :: chunks) = [chunk] := by
  rw [chunksRead, if_neg hchunk, if_pos hcap]

theorem chunksRead_more (hchunk : chunk ≠ []) (hcap : ¬maxBytes ≤ total + chunk.length) :
    chunksRead maxBytes total (chunk :: chunks) =
      chunk :: chunksRead maxBytes (total + chunk.length) chunks := by
  rw [chunksRead, if_neg hchunk, if_neg hcap]

variable {buffer begun : Text} {lines : List Text}

theorem iterLines_empty :
    iterLinesFromResponse maxBytes buffer total ((([] : Bytes) :: chunks).map chunkOf) =
      iterLinesFromResponse maxBytes buffer total (chunks.map chunkOf) := by
  have hbytes : (chunkOf []).bytes = 0 := rfl
  rw [List.map_cons, iterLinesFromResponse, if_pos hbytes]

/-- The chunk that reaches the cap: what is begun of a line is flagged. -/
theorem iterLines_last (hchunk : chunk ≠ [])
    (hsplit : (buffer ++ decode chunk).splitOn '\n' = lines ++ [begun])
    (hcap : maxBytes ≤ total + chunk.length) :
    iterLinesFromResponse maxBytes buffer total ((chunk :: chunks).map chunkOf) =
      lines.map (⟨·, total + chunk.length, false⟩) ++
        if begun = [] then [] else [⟨begun, total + chunk.length, true⟩] := by
  have hbytes : (chunkOf chunk).bytes ≠ 0 := fun hzero => hchunk (List.length_eq_zero_iff.1 hzero)
  rw [List.map_cons, iterLinesFromResponse, if_neg hbytes]
  simp only [chunkOf, hsplit, List.getLastD_concat, List.dropLast_concat, if_pos hcap]

theorem iterLines_more (hchunk : chunk ≠ [])
    (hsplit : (buffer ++ decode chunk).splitOn '\n' = lines ++ [begun])
    (hcap : ¬maxBytes ≤ total + chunk.length) :
    iterLinesFromResponse maxBytes buffer total ((chunk :: chunks).map chunkOf) =
      lines.map (⟨·, total + chunk.length, false⟩) ++
        iterLinesFromResponse maxBytes begun (total + chunk.length) (chunks.map chunkOf) := by
  have hbytes : (chunkOf chunk).bytes ≠ 0 := fun hzero => hchunk (List.length_eq_zero_iff.1 hzero)
  rw [List.map_cons, iterLinesFromResponse, if_neg hbytes]
  simp only [chunkOf, hsplit, List.getLastD_concat, List.dropLast_concat, if_neg hcap]

end

/-- **The lines of the reader** are those of the chunks that it takes, decoded one by one. -/
theorem map_line_iterLines (maxBytes : ℕ) (chunks : List Bytes) {buffer : Text} (total : ℕ)
    (hbuffer : '\n' ∉ buffer) :
    (iterLinesFromResponse maxBytes buffer total (chunks.map chunkOf)).map Item.line =
      logLines (buffer ++ (chunksRead maxBytes total chunks).flatMap decode) := by
  induction chunks generalizing buffer total with
  | nil =>
    rw [List.map_nil, iterLinesFromResponse, chunksRead, List.flatMap_nil, List.append_nil,
      logLines_begun hbuffer]
    split <;> rfl
  | cons chunk chunks ih =>
    by_cases hchunk : chunk = []
    · rw [hchunk, iterLines_empty, chunksRead, if_pos rfl]
      exact ih total hbuffer
    obtain ⟨lines, begun, hsplit, htext, hlines, hbegun⟩ := exists_splitOn (buffer ++ decode chunk)
    by_cases hcap : maxBytes ≤ total + chunk.length
    · rw [iterLines_last chunks hchunk hsplit hcap, chunksRead_last chunks hchunk hcap,
        List.flatMap_singleton, htext, logLines_ended hlines, logLines_begun hbegun,
        List.map_append, map_line_map]
      split <;> rfl
    · rw [iterLines_more chunks hchunk hsplit hcap, chunksRead_more chunks hchunk hcap,
        List.flatMap_cons, ← List.append_assoc, htext, List.append_assoc, logLines_ended hlines,
        List.map_append, map_line_map, ih _ hbegun]

theorem ne_nil_of_mem_read {maxBytes : ℕ} {chunks : List Bytes} {total : ℕ} {chunk : Bytes}
    (h : chunk ∈ chunksRead maxBytes total chunks) : chunk ≠ [] := by
  induction chunks generalizing total with
  | nil => cases h
  | cons next chunks ih =>
    rw [chunksRead] at h
    split at h
    · exact ih h
    · next hne =>
      split at h
      · exact List.mem_singleton.1 h ▸ hne
      · rcases List.mem_cons.1 h with rfl | h
        · exact hne
        · exact ih h

theorem flatten_read_ne_nil {maxBytes total : ℕ} {chunks : List Bytes}
    (h : chunksRead maxBytes total chunks ≠ []) :
    (chunksRead maxBytes total chunks).flatten ≠ [] := by
  obtain ⟨chunk, rest, hread⟩ := List.exists_cons_of_ne_nil h
  have hchunk : chunk ≠ [] := ne_nil_of_mem_read (hread ▸ List.mem_cons_self)
  rw [hread, List.flatten_cons]
  exact List.append_ne_nil_of_left_ne_nil hchunk _

/-- **The cap is flagged** where the chunks that are chunksRead reach it inside a line. -/
theorem flagged_iterLines (maxBytes : ℕ) (chunks : List Bytes) {buffer : Text} (total : ℕ)
    (hbuffer : '\n' ∉ buffer) :
    (iterLinesFromResponse maxBytes buffer total (chunks.map chunkOf)).any Item.hitCap = true ↔
      chunksRead maxBytes total chunks ≠ [] ∧
        maxBytes ≤ total + (chunksRead maxBytes total chunks).flatten.length ∧
          (chunksRead maxBytes total chunks).flatten.getLast? ≠ some 0x0a := by
  induction chunks generalizing buffer total with
  | nil =>
    rw [List.map_nil, iterLinesFromResponse, chunksRead]
    split <;> simp
  | cons chunk chunks ih =>
    by_cases hchunk : chunk = []
    · rw [hchunk, iterLines_empty, chunksRead, if_pos rfl]
      exact ih total hbuffer
    obtain ⟨lines, begun, hsplit, htext, hlines, hbegun⟩ := exists_splitOn (buffer ++ decode chunk)
    have hplain : (lines.map fun line =>
        (⟨line, total + chunk.length, false⟩ : Item)).any Item.hitCap = false := by
      rw [List.any_map]
      exact List.any_eq_false.2 fun _ _ => Bool.false_ne_true
    by_cases hcap : maxBytes ≤ total + chunk.length
    · have hdecoded : decode chunk ≠ [] := decodeFrom_ne_nil none hchunk
      have hlast : begun = [] ↔ chunk.getLast? = some 0x0a := by
        rw [← getLast?_decode, ← List.getLast?_append_of_ne_nil buffer hdecoded, htext]
        exact begun_eq_nil_iff hbegun (htext ▸ List.append_ne_nil_of_right_ne_nil _ hdecoded)
      rw [iterLines_last chunks hchunk hsplit hcap, chunksRead_last chunks hchunk hcap,
        List.any_append, hplain, Bool.false_or, List.flatten_singleton, ne_eq, ne_eq, ← hlast]
      by_cases hnil : begun = []
      · simp [hnil]
      · simp [hnil, hcap]
    · rw [iterLines_more chunks hchunk hsplit hcap, chunksRead_more chunks hchunk hcap,
        List.any_append, hplain, Bool.false_or, ih _ hbegun, List.flatten_cons,
        List.length_append, ← Nat.add_assoc]
      by_cases hnil : chunksRead maxBytes (total + chunk.length) chunks = []
      · rw [hnil]
        exact iff_of_false (fun h => h.1 rfl) fun h => hcap h.2.1
      · rw [List.getLast?_append_of_ne_nil _ (flatten_read_ne_nil hnil)]
        exact and_congr_left fun _ => iff_of_true hnil (List.cons_ne_nil _ _)

/-! ## What the reader takes -/

theorem prefix_chunksRead (maxBytes : ℕ) (chunks : List Bytes) (total : ℕ) :
    (chunksRead maxBytes total chunks).flatten <+: chunks.flatten := by
  induction chunks generalizing total with
  | nil => exact List.prefix_rfl
  | cons chunk chunks ih =>
    rw [chunksRead]
    split
    case isTrue hnil =>
      rw [hnil]
      exact ih total
    split
    · rw [List.flatten_singleton, List.flatten_cons]
      exact List.prefix_append _ _
    · rw [List.flatten_cons, List.flatten_cons, List.prefix_append_right_inj]
      exact ih _

/-- The reader stops at the cap, and nowhere else. -/
theorem chunksRead_all (maxBytes : ℕ) (chunks : List Bytes) (total : ℕ) :
    maxBytes ≤ total + (chunksRead maxBytes total chunks).flatten.length ∨
      (chunksRead maxBytes total chunks).flatten = chunks.flatten := by
  induction chunks generalizing total with
  | nil => exact .inr rfl
  | cons chunk chunks ih =>
    rw [chunksRead]
    split
    case isTrue hnil =>
      rw [hnil]
      exact ih total
    split
    case isTrue hcap =>
      rw [List.flatten_singleton]
      exact .inl hcap
    case isFalse =>
      rw [List.flatten_cons, List.flatten_cons, List.length_append, ← Nat.add_assoc]
      exact (ih _).imp_right (congrArg _)

namespace Sending

variable {maxBytes : ℕ} (sending : Sending maxBytes)

theorem read_prefix : sending.read.flatten <+: sending.log :=
  (prefix_chunksRead _ _ _).trans sending.sent

/-- The log is read to its end, or to the cap. -/
theorem read_enough :
    maxBytes ≤ sending.read.flatten.length ∨ sending.read.flatten = sending.log := by
  have hall := chunksRead_all maxBytes sending.chunks 0
  rw [Nat.zero_add] at hall
  rcases hall with hcap | hall
  · exact .inl hcap
  · rcases sending.enough with hlog | hcap
    · exact .inr (hall.trans hlog)
    · exact .inl (hcap.trans_eq (congrArg List.length hall.symm))

theorem take_prefix : sending.log.take maxBytes <+: sending.read.flatten := by
  rcases sending.read_enough with hcap | hlog
  · refine List.prefix_of_prefix_length_le (List.take_prefix _ _) sending.read_prefix ?_
    exact (List.length_take_le _ _).trans hcap
  · rw [hlog]
    exact List.take_prefix _ _

/-- The bytes past the cap in the last chunk add nothing but a break that ends the last line. -/
def WithinCap : Prop :=
  terminated (decode sending.read.flatten) = terminated (decode (sending.log.take maxBytes))

/-- **The lines are those of the log up to the cap** where no chunk ends inside a sequence and the
last one has nothing past the cap. -/
theorem lines_iff :
    sending.items.map Item.line = linesUpTo maxBytes sending.log ↔
      Seamless sending.read ∧ sending.WithinCap := by
  have hlines : sending.items.map Item.line = logLines (sending.read.flatMap decode) :=
    map_line_iterLines maxBytes sending.chunks 0 List.not_mem_nil
  have hne : ∀ chunk ∈ sending.read, chunk ≠ [] := fun _ => ne_nil_of_mem_read
  obtain ⟨hsame, hmore⟩ := decode_flatten hne
  rw [hlines, linesUpTo, logLines_eq_iff]
  constructor
  · intro h
    suffices hseamless : Seamless sending.read by
      rw [hsame hseamless] at h
      exact ⟨hseamless, h⟩
    by_contra hnot
    have hlonger := hmore hnot
    obtain ⟨rest, hrest⟩ := sending.take_prefix
    have hshorter := length_decode_le (sending.log.take maxBytes) rest
    have hbreaks := count_flatMap_decode sending.read
    have hcount := count_decodeFrom none (sending.log.take maxBytes)
    have hnone := count_of_length_eq (a := sending.log.take maxBytes) (b := rest)
    rw [← hrest, List.count_append] at hbreaks
    rw [hrest] at hshorter hnone
    change (decode _).count '\n' = _ at hcount
    generalize sending.read.flatMap decode = text at h hlonger hbreaks
    generalize decode sending.read.flatten = whole at hlonger hshorter hnone
    generalize decode (sending.log.take maxBytes) = upTo at h hshorter hcount hnone
    unfold terminated at h
    split at h <;> split at h
    · rw [h] at hlonger
      omega
    · have hlength := congrArg List.length h
      have hends := congrArg (List.count '\n') h
      rw [List.length_append, List.length_singleton] at hlength
      rw [List.count_append, List.count_singleton_self] at hends
      have hzero := hnone (by omega)
      omega
    · have hends := congrArg (List.count '\n') h
      rw [List.count_append, List.count_singleton_self] at hends
      omega
    · rw [List.append_cancel_right h] at hlonger
      omega
  · rintro ⟨hseamless, hwithin⟩
    rw [hsame hseamless]
    exact hwithin

/-- Some of the log is not read. -/
def Unread : Prop := sending.read.flatten.length < sending.log.length

/-- The last byte read ends no line. -/
def StopsInLine : Prop := ∃ b ∈ sending.read.flatten.getLast?, b ≠ 0x0a

/-- **The cap is reported** where the last byte before what is not read ends no line. -/
theorem reported_iff (h : sending.Unread) :
    (∃ item ∈ sending.items, item.hitCap = true) ↔ sending.StopsInLine := by
  have hflagged : sending.items.any Item.hitCap = true ↔ _ :=
    flagged_iterLines maxBytes sending.chunks 0 List.not_mem_nil
  have hcap : maxBytes ≤ sending.read.flatten.length := by
    refine sending.read_enough.resolve_right fun hlog => ?_
    rw [Unread, hlog] at h
    exact lt_irrefl _ h
  rw [← List.any_eq_true, hflagged, Nat.zero_add]
  change sending.read ≠ [] ∧ _ ≤ sending.read.flatten.length ∧
    sending.read.flatten.getLast? ≠ _ ↔ _
  by_cases hnil : sending.read = []
  · refine iff_of_false (fun hflag => hflag.1 hnil) ?_
    rintro ⟨b, hb, -⟩
    rw [hnil] at hb
    cases hb
  · obtain ⟨b, hb⟩ : ∃ b, sending.read.flatten.getLast? = some b :=
      Option.isSome_iff_exists.1 (List.getLast?_isSome.2 (flatten_read_ne_nil hnil))
    rw [hb]
    constructor
    · rintro ⟨-, -, hbreak⟩
      exact ⟨b, hb, fun heq => hbreak (congrArg some heq)⟩
    · rintro ⟨b', hb', hbreak⟩
      obtain rfl : b = b' := Option.some.inj (hb.symm.trans hb')
      exact ⟨hnil, hcap, fun heq => hbreak (Option.some.inj heq)⟩

end Sending

/-! ## What is announced of a target -/

/-- The instances that are read of a target. -/
def PodTarget.instancesRead (target : PodTarget) : List Instance :=
  (if target.restarted then [.previous] else []) ++ [.current]

section

universe u v

variable {σ : Type u} {ρ : Type v} (s : Settings σ ρ) (window : TimeWindow) (target : PodTarget)
  (sendings : Instance → Sending s.maxBytes)

/-- The API answers a read of an instance with what is sent of its log. -/
def answering : Transport := .live fun _ wanted => (sendings wanted).response

/-- The gap of a cap that was hit is recorded where one of the reads reports it. -/
theorem capHit_mem_iff :
    capHit s.maxBytes target ∈ (readOne s (answering s sendings) window target).gaps ↔
      ∃ inst ∈ target.instancesRead, ∃ item ∈ (sendings inst).items, item.hitCap = true := by
  have hstream : ∀ inst, streamOf s (answering s sendings) window target inst =
      (sendings inst).response.stream s.maxBytes := fun _ => rfl
  have hfailure : ∀ inst, ((sendings inst).response.stream s.maxBytes).failure = none :=
    fun inst => ite_self none
  have hfails : fails s (answering s sendings) window target = none := by
    rw [fails, hstream, Stream.raises, hfailure, ite_self]
  have hhits : hitsCap s (answering s sendings) window target = true ↔
      ∃ inst ∈ target.instancesRead, ∃ item ∈ (sendings inst).items, item.hitCap = true := by
    have hflagged : ∀ inst, ((sendings inst).response.stream s.maxBytes).flagged = true ↔
        ∃ item ∈ (sendings inst).items, item.hitCap = true := fun inst => List.any_eq_true
    rw [hitsCap, hstream, hstream, Bool.or_eq_true, Bool.and_eq_true, hflagged, hflagged,
      PodTarget.instancesRead]
    cases target.restarted <;> simp
  obtain ⟨-, -, hgaps⟩ :=
    @readOne_spec _ _ s (answering s sendings) window target
  rw [hgaps, hfails, ← hhits]
  dsimp only
  split
  case isTrue hhit => exact iff_of_true (List.mem_singleton_self _) hhit
  case isFalse hhit => exact iff_of_false List.not_mem_nil hhit

/-- **What is not read is announced** where the last byte before it ends no line. -/
theorem announced_iff :
    (∀ inst ∈ target.instancesRead, (sendings inst).Unread →
      (∃ item ∈ (sendings inst).items, item.hitCap = true) ∧
        capHit s.maxBytes target ∈ (readOne s (answering s sendings) window target).gaps) ↔
      ∀ inst ∈ target.instancesRead, (sendings inst).Unread → (sendings inst).StopsInLine := by
  constructor
  · intro h inst hinst hunread
    exact ((sendings inst).reported_iff hunread).1 (h inst hinst hunread).1
  · intro h inst hinst hunread
    have hreported := ((sendings inst).reported_iff hunread).2 (h inst hinst hunread)
    exact ⟨hreported, (capHit_mem_iff s window target sendings).2 ⟨inst, hinst, hreported⟩⟩

end

end ResidentCrm.Logs
