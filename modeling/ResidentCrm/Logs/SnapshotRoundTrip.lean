import ResidentCrm.Lib.JsonRoundTrip
import ResidentCrm.Lib.Words
import ResidentCrm.Logs.Coverage
import ResidentCrm.Logs.Snapshot
import Mathlib.Data.Option.Basic

/-!
# Snapshots as they are stored

`save`, `load` and `load_spans` of `log_pipeline/snapshot.py` down to the text of the two files, on
either backend. The records are one JSON document a line, in which a string keeps the characters
beyond ASCII, and `str.splitlines` takes three of these for the end of a line. A snapshot comes back
as it was saved exactly where no record has one of them and no span lacks a name or an oldest line
that it says it has (`roundTrips_iff`).

A record, and the context of a gap, is any value that `json.dumps` can write and `json.loads` gives
back; what cannot be encoded in UTF-8 is not saved, and is no text here.
-/

namespace ResidentCrm.Logs

/-! ## The backends -/

/-- `os.linesep`. -/
inductive LineSep where
  | lf
  | crlf
deriving DecidableEq, Repr

def LineSep.text : LineSep → Text
  | .lf => ['\n']
  | .crlf => ['\r', '\n']

/-- `CASEBOOK_STORAGE_BACKEND`: text files on the local one, objects in UTF-8 on the other. -/
inductive Backend where
  | local (sep : LineSep)
  | s3
deriving DecidableEq, Repr

/-- What reading in text mode makes of the ends of lines. -/
def universalNewlines : Text → Text
  | '\r' :: '\n' :: s => '\n' :: universalNewlines s
  | c :: s => (if c = '\r' then '\n' else c) :: universalNewlines s
  | [] => []

def Backend.written (b : Backend) (s : Text) : Text :=
  match b with
  | .local sep => s.flatMap fun c => if c = '\n' then sep.text else [c]
  | .s3 => s

def Backend.reads (b : Backend) (s : Text) : Text :=
  match b with
  | .local _ => universalNewlines s
  | .s3 => s

theorem universalNewlines_cons {c : Char} (h : c ≠ '\r') (s : Text) :
    universalNewlines (c :: s) = c :: universalNewlines s := by
  rw [universalNewlines]
  · rw [if_neg h]
  · exact fun _ heq => absurd heq h

/-- A text without carriage returns comes back as it was written. -/
theorem Backend.reads_written (b : Backend) {s : Text} (h : '\r' ∉ s) :
    b.reads (b.written s) = s := by
  cases b with
  | s3 => rfl
  | «local» sep =>
    unfold reads written
    dsimp only
    induction s with
    | nil => rfl
    | cons c s ih =>
      have hc : c ≠ '\r' := fun hc => h (hc ▸ List.mem_cons_self)
      have ih := ih fun hs => h (List.mem_cons_of_mem _ hs)
      rw [List.flatMap_cons]
      by_cases hn : c = '\n'
      · rw [if_pos hn, hn]
        cases sep with
        | lf => exact (universalNewlines_cons (by decide) _).trans (congrArg _ ih)
        | crlf => exact congrArg (List.cons '\n') ih
      · rw [if_neg hn, List.singleton_append, universalNewlines_cons hc, ih]

/-! ## Saving -/

/-- The two files of a snapshot. -/
structure SnapshotFiles where
  records : Option Text
  metadata : Option Text

/-- What `save` is told beside the evidence, and how its two writes end. -/
structure SaveCall where
  eventId : Text
  source : Text
  capturedAt : Text
  lastUpdated : Text
  recordsWritten : Bool
  metadataWritten : Bool

def casebookSchemaVersion : Text := "1.3".toList

def gapJson (gap : EvidenceGap) : Json :=
  .object [("type".toList, .text gap.gapType.value), ("detail".toList, .text gap.detail),
    ("context".toList, .object gap.context)]

section

variable (clock : Clock)

/-- `PodSpan.to_dict`, as a value. -/
def spanJson (span : PodSpan) : Json :=
  .object [("pod_name".toList, .text span.podName), ("container".toList, .text span.container),
    ("oldest_line".toList, .optional span.oldestLine),
    ("start_time".toList, .optional (span.startTime.map clock.isoformat))]

def metaJson (call : SaveCall) (count : ℕ) (gaps : List EvidenceGap)
    (spans : Option (List PodSpan)) : Json :=
  .object ([("event_id".toList, .text call.eventId), ("source".toList, .text call.source),
    ("captured_at".toList, .text call.capturedAt), ("record_count".toList, .nat count),
    ("gaps".toList, .array (gaps.map gapJson))] ++
    (match spans with
      | some spans => [("coverage".toList, .object [("pods".toList, .array (spans.map (spanJson clock)))])]
      | none => []) ++
    [("schema_version".toList, .text casebookSchemaVersion),
      ("casebook_metadata".toList, .object [("last_updated".toList, .text call.lastUpdated)])])

/-- One document a line. -/
def recordsBody (records : List Json) : Text :=
  records.flatMap fun r => r.write oneLine 0 ++ ['\n']

/-- `save`: whether it reports success, and the files after it. -/
def save (b : Backend) (files : SnapshotFiles) (call : SaveCall) (records : List Json)
    (gaps : List EvidenceGap) (spans : Option (List PodSpan)) : Bool × SnapshotFiles :=
  if !call.recordsWritten then (false, files)
  else
    let files := { files with records := some (b.written (recordsBody records)) }
    if !call.metadataWritten then (false, files)
    else
      let text := (metaJson clock call records.length gaps spans).write indented 0
      (true, { files with metadata := some (b.written text) })

end

/-! ## Loading -/

def savedGapOf (entry : Json) : SavedGap where
  type := (entry.item "type".toList).string.getD []
  detail := (entry.item "detail".toList).string.getD []
  context := match entry.item "context".toList with
    | .object items => items
    | _ => []

def savedSpanOf (entry : Json) : SavedSpan where
  podName := (entry.item "pod_name".toList).string.getD []
  container := (entry.item "container".toList).string.getD []
  oldestLine := (entry.item "oldest_line".toList).string
  startTime := (entry.item "start_time".toList).string

/-- The metadata that a document has, of the form that `save` gives it. -/
def metaOf (document : Json) : SnapshotMeta where
  gaps := match document.item "gaps".toList with
    | .array l => l.map savedGapOf
    | _ => []
  coverage := match (document.item "coverage".toList).item "pods".toList with
    | .array l => some (l.map savedSpanOf)
    | _ => none

section

variable (b : Backend) (files : SnapshotFiles)

/-- `storage.load` of the metadata: none where it is not there or is no JSON. -/
def loadMeta : Option SnapshotMeta :=
  (files.metadata.bind fun text => loads (b.reads text)).map metaOf

/-- The records of a body, one a line that is not blank. -/
def recordsOf (body : Text) : Option (List Json) :=
  ((Text.linesOf body).filter fun line => Text.strip line ≠ []).mapM loads

/-- `load`. -/
def load : Option (List Json × List EvidenceGap) := do
  let body ← files.records
  let records ← recordsOf (b.reads body)
  if records = [] then none
  else some (records, loadGaps (loadMeta b files))

/-- `load_spans`. -/
def loadStoredSpans (clock : Clock) : Option (List PodSpan) := loadSpans clock (loadMeta b files)

end

/-! ## The property and its condition -/

/-- A character beyond ASCII that `str.splitlines` takes for the end of a line. -/
def isWideBreak (c : Char) : Bool := Text.isBreak c && 127 ≤ c.toNat

/-- The spans are the same, up to how an instant is written. -/
def PodSpan.Same (a b : PodSpan) : Prop :=
  a.podName = b.podName ∧ a.container = b.container ∧ a.oldestLine = b.oldestLine ∧
    a.startTime.map Moment.instant = b.startTime.map Moment.instant

/-- Everything comes back. -/
structure RoundTrips (clock : Clock) (b : Backend) (files : SnapshotFiles) (records : List Json)
    (gaps : List EvidenceGap) (spans : Option (List PodSpan)) : Prop where
  evidence : load b files = some (records, gaps)
  spans : Option.Rel (List.Forall₂ PodSpan.Same) (loadStoredSpans b files clock) spans

/-- No string and no key of a record breaks its line. -/
def OnOneLine (records : List Json) : Prop :=
  ∀ r ∈ records, ∀ t ∈ r.texts, ∀ c ∈ t, isWideBreak c = false

/-- Every span has a name, and no empty oldest line. -/
def SpansTold (spans : Option (List PodSpan)) : Prop :=
  ∀ l ∈ spans, ∀ span ∈ l, span.podName ≠ [] ∧ span.oldestLine ≠ some []

/-! ## The metadata -/

theorem isNumberText_digits {s : Text} (hne : s ≠ []) (hdigits : ∀ c ∈ s, c.isDigit = true)
    (hzero : s.head? = some '0' → s.length = 1) : isNumberText s = true := by
  have hunsigned : isUnsigned s = true := by
    have htake : s.takeWhile Char.isDigit = s := List.takeWhile_eq_self_iff.2 hdigits
    have hdrop : s.dropWhile Char.isDigit = [] := List.dropWhile_eq_nil_iff.2 hdigits
    unfold isUnsigned
    simp only [htake, hdrop]
    by_cases hhead : s.head? = some '0'
    · simp [hne, hzero hhead, isExponent]
    · simp [hne, hhead, isExponent]
  have hliteral : isLiteral s = true := by
    obtain ⟨c, s', rfl⟩ := List.exists_cons_of_ne_nil hne
    have hc : c ≠ '-' := by
      rintro rfl
      exact absurd (hdigits '-' List.mem_cons_self) (by decide)
    rw [isLiteral]
    · exact hunsigned
    · intro s'' h
      exact hc (List.cons.inj h).1
  -- an integer is no float, whatever its size
  have hint : isFloatText s = false := by
    rw [isFloatText, List.any_eq_false]
    intro c hc hmark
    have hdigit := hdigits c hc
    simp only [Bool.or_eq_true, decide_eq_true_eq] at hmark
    rcases hmark with (rfl | rfl) | rfl <;> cases hdigit
  rw [isNumberText, hliteral, overflows, hint]
  rfl

theorem head_toDigits {n : ℕ} (h : 0 < n) : (Nat.toDigits 10 n).head? ≠ some '0' := by
  induction n using Nat.strong_induction_on with
  | _ n ih =>
    by_cases hlt : n < 10
    · rw [Nat.toDigits_of_lt_base hlt]
      have hall : ∀ m < 10, 0 < m → [Nat.digitChar m].head? ≠ some '0' := by decide
      exact hall n hlt h
    · rw [Nat.toDigits_of_base_le (by decide) (Nat.le_of_not_lt hlt),
        List.head?_append_of_ne_nil _ Nat.toDigits_ne_nil]
      exact ih (n / 10) (by omega) (by omega)

theorem valid_nat (n : ℕ) : (Json.nat n).Valid := by
  have hnumber : isNumberText (Nat.toDigits 10 n) = true := by
    refine isNumberText_digits Nat.toDigits_ne_nil
      (fun c => Nat.isDigit_of_mem_toDigits (by decide) (by decide)) fun hhead => ?_
    rcases Nat.eq_zero_or_pos n with rfl | hpos
    · rfl
    · exact absurd hhead (head_toDigits hpos)
  unfold Json.nat Json.Valid
  exact hnumber

theorem valid_optional (s : Option Text) : (Json.optional s).Valid := by
  cases s <;> simp [Json.optional, Json.Valid]

theorem validItems_map {α : Type} {f : α → Json} {l : List α} (h : ∀ a ∈ l, (f a).Valid) :
    Json.ValidItems (l.map f) := by
  induction l with
  | nil => trivial
  | cons a l ih =>
    exact ⟨h a List.mem_cons_self, ih fun b hb => h b (List.mem_cons_of_mem _ hb)⟩

theorem valid_gapJson {gap : EvidenceGap} (h : (Json.object gap.context).Valid) :
    (gapJson gap).Valid := by
  have hkeys : ["type".toList, "detail".toList, "context".toList].Nodup := by decide
  unfold gapJson
  rw [Json.Valid]
  refine ⟨hkeys, ?_⟩
  simp only [Json.ValidFields, Json.text]
  simp only [Json.Valid, and_true, true_and] at h ⊢
  exact h

theorem valid_spanJson (clock : Clock) (span : PodSpan) : (spanJson clock span).Valid := by
  have hkeys : ["pod_name".toList, "container".toList, "oldest_line".toList,
      "start_time".toList].Nodup := by decide
  unfold spanJson
  rw [Json.Valid]
  refine ⟨hkeys, ?_⟩
  simp only [Json.ValidFields, Json.text, valid_optional, and_true]
  simp [Json.Valid]

theorem valid_metaJson (clock : Clock) (call : SaveCall) (count : ℕ) {gaps : List EvidenceGap}
    (hgaps : ∀ gap ∈ gaps, (Json.object gap.context).Valid) (spans : Option (List PodSpan)) :
    (metaJson clock call count gaps spans).Valid := by
  have htext : ∀ t : Text, (Json.text t).Valid := fun t => by simp [Json.text, Json.Valid]
  have hlist : (Json.array (gaps.map gapJson)).Valid := by
    rw [Json.Valid]
    exact validItems_map fun gap hgap => valid_gapJson (hgaps gap hgap)
  have hpods : ∀ l : List PodSpan, (Json.array (l.map (spanJson clock))).Valid := fun l => by
    rw [Json.Valid]
    exact validItems_map fun span _ => valid_spanJson clock span
  have hone : ∀ (key : Text) (v : Json), v.Valid → (Json.object [(key, v)]).Valid := by
    intro key v hv
    rw [Json.Valid]
    exact ⟨List.nodup_singleton _, hv, trivial⟩
  have hkeys : ["event_id".toList, "source".toList, "captured_at".toList, "record_count".toList,
      "gaps".toList, "coverage".toList, "schema_version".toList,
      "casebook_metadata".toList].Nodup := by decide
  have hsub : ["event_id".toList, "source".toList, "captured_at".toList, "record_count".toList,
      "gaps".toList, "schema_version".toList, "casebook_metadata".toList].Nodup := by decide
  unfold metaJson
  cases spans with
  | none =>
    rw [Json.Valid]
    refine ⟨hsub, ?_⟩
    simp only [List.append_nil, List.cons_append, List.nil_append, Json.ValidFields, htext,
      valid_nat, hlist, hone _ _ (htext _), and_true]
  | some l =>
    rw [Json.Valid]
    refine ⟨hkeys, ?_⟩
    simp only [List.cons_append, List.nil_append, Json.ValidFields, htext, valid_nat, hlist,
      hone _ _ (hpods l), hone _ _ (htext _), and_true]

theorem savedSpanOf_spanJson (clock : Clock) (span : PodSpan) :
    savedSpanOf (spanJson clock span) = span.toDict clock := by
  obtain ⟨podName, container, oldestLine, startTime⟩ := span
  cases oldestLine <;> cases startTime <;> rfl

theorem metaOf_metaJson (clock : Clock) (call : SaveCall) (count : ℕ) (gaps : List EvidenceGap)
    (spans : Option (List PodSpan)) :
    metaOf (metaJson clock call count gaps spans) = snapshotMeta clock gaps spans := by
  have hgaps : (gaps.map gapJson).map savedGapOf = gaps.map EvidenceGap.saved := by
    rw [List.map_map]
    rfl
  have hspans : ∀ l : List PodSpan,
      (l.map (spanJson clock)).map savedSpanOf = l.map (PodSpan.toDict clock) := fun l => by
    rw [List.map_map]
    exact List.map_congr_left fun span _ => savedSpanOf_spanJson clock span
  have hgaps' : (metaOf (metaJson clock call count gaps spans)).gaps =
      (gaps.map gapJson).map savedGapOf := rfl
  cases spans with
  | none => exact congrArg₂ SnapshotMeta.mk (hgaps'.trans hgaps) rfl
  | some l => exact congrArg₂ SnapshotMeta.mk (hgaps'.trans hgaps) (congrArg some (hspans l))

/-! ## The lines of a body -/

theorem not_return_of_shown {lay : Layout} {texts : List Text} {c : Char}
    (hlay : ∀ n, '\r' ∉ lay.first n ++ lay.next n ++ lay.last n) (h : Shown lay texts c) :
    c ≠ '\r' := by
  rintro rfl
  rcases h with ⟨n, h⟩ | ⟨h, -⟩
  · exact hlay n h
  · exact absurd h (by decide)

theorem return_notMem_body (records : List Json) : '\r' ∉ recordsBody records := by
  intro h
  obtain ⟨r, -, h⟩ := List.mem_flatMap.1 h
  rcases List.mem_append.1 h with h | h
  · have hlay : ∀ n, '\r' ∉ oneLine.first n ++ oneLine.next n ++ oneLine.last n := by
      intro n
      simp [oneLine]
    exact not_return_of_shown hlay (shown_of_mem_write h) rfl
  · exact absurd (List.mem_singleton.1 h) (by decide)

theorem return_notMem_indented (v : Json) : '\r' ∉ v.write indented 0 := by
  intro h
  have hlay : ∀ n, '\r' ∉ indented.first n ++ indented.next n ++ indented.last n := by
    intro n
    simp [indented, List.mem_replicate]
  exact not_return_of_shown hlay (shown_of_mem_write h) rfl

/-- A document breaks its line where a string or a key of it does. -/
theorem exists_break_iff (v : Json) :
    (∃ c ∈ v.write oneLine 0, Text.isBreak c = true) ↔ ∃ t ∈ v.texts, ∃ c ∈ t, isWideBreak c := by
  have hlow : ∀ c : Char, 32 ≤ c.toNat → Text.isBreak c = true → 127 ≤ c.toNat := by
    intro c hc hbreak
    by_contra hlt
    simp only [Text.isBreak, Bool.or_eq_true, Bool.and_eq_true, decide_eq_true_eq] at hbreak
    omega
  constructor
  · rintro ⟨c, hc, hbreak⟩
    rcases shown_of_mem_write hc with ⟨n, hn⟩ | ⟨hplain, htext⟩
    · have hspace : c = ' ' := by simpa [oneLine] using hn
      rw [hspace] at hbreak
      cases hbreak
    · have hhigh := hlow c hplain hbreak
      obtain ⟨t, ht, hct⟩ := htext hhigh
      exact ⟨t, ht, c, hct, by simp [isWideBreak, hbreak, hhigh]⟩
  · rintro ⟨t, ht, c, hct, hwide⟩
    simp only [isWideBreak, Bool.and_eq_true, decide_eq_true_eq] at hwide
    exact ⟨c, mem_write hwide.2 hct ht, hwide.1⟩

theorem onOneLine_iff {records : List Json} :
    OnOneLine records ↔ ∀ r ∈ records, ∀ c ∈ r.write oneLine 0, Text.isBreak c = false := by
  unfold OnOneLine
  refine forall₂_congr fun r _ => ?_
  have hiff := (exists_break_iff r).not
  simp only [not_exists, not_and, Bool.not_eq_true] at hiff
  exact hiff.symm

theorem linesOf_body {records : List Json}
    (h : ∀ r ∈ records, ∀ c ∈ r.write oneLine 0, Text.isBreak c = false) :
    Text.linesOf (recordsBody records) = records.map (Json.write oneLine 0) := by
  unfold Text.linesOf recordsBody
  induction records with
  | nil => rfl
  | cons r records ih =>
    rw [List.flatMap_cons, List.append_assoc, Text.linesFrom_append (h r List.mem_cons_self),
      List.singleton_append, Text.linesFrom_break rfl (by decide), List.nil_append,
      ih fun r' hr' => h r' (List.mem_cons_of_mem _ hr'), List.map_cons]

/-- A document of more than one line leaves a line that is cut short. -/
theorem exists_cut_line {records : List Json} (hvalid : ∀ r ∈ records, r.Valid)
    (h : ∃ r ∈ records, ∃ c ∈ r.write oneLine 0, Text.isBreak c = true) :
    ∃ line ∈ Text.linesOf (recordsBody records), loads line = none ∧ Text.strip line ≠ [] := by
  unfold Text.linesOf recordsBody
  induction records with
  | nil =>
    obtain ⟨r, hr, -⟩ := h
    cases hr
  | cons r records ih =>
    rw [List.flatMap_cons, List.append_assoc, List.singleton_append]
    by_cases hr : ∃ c ∈ r.write oneLine 0, Text.isBreak c = true
    · -- the line up to the first boundary in the document
      obtain ⟨a, c, rest, hsplit, ha, hc⟩ : ∃ a c rest, r.write oneLine 0 = a ++ c :: rest ∧
          (∀ d ∈ a, Text.isBreak d = false) ∧ Text.isBreak c = true := by
        generalize r.write oneLine 0 = s at hr
        induction s with
        | nil =>
          obtain ⟨c, hc, -⟩ := hr
          cases hc
        | cons d s ihs =>
          cases hd : Text.isBreak d with
          | true => exact ⟨[], d, s, rfl, nofun, hd⟩
          | false =>
            obtain ⟨c, hc, hbreak⟩ := hr
            rcases List.mem_cons.1 hc with rfl | hc
            · rw [hd] at hbreak
              cases hbreak
            · obtain ⟨a, e, rest, rfl, ha, he⟩ := ihs ⟨c, hc, hbreak⟩
              refine ⟨d :: a, e, rest, rfl, fun x hx => ?_, he⟩
              rcases List.mem_cons.1 hx with rfl | hx
              · exact hd
              · exact ha x hx
      have hreturn : c ≠ '\r' := by
        rintro rfl
        have hmem : '\r' ∈ recordsBody [r] := by simp [recordsBody, hsplit]
        exact return_notMem_body [r] hmem
      obtain ⟨t, ht, -⟩ := (exists_break_iff r).1 hr
      obtain ⟨d, l, hhead, hencloses⟩ := r.write_head_of_mem_texts oneLine 0 ht
      have hplain : Text.isBreak d = false ∧ Text.isSpace d = false := by
        rcases hencloses with rfl | rfl | rfl <;> exact ⟨rfl, rfl⟩
      obtain ⟨a, rfl⟩ : ∃ a', a = d :: a' := by
        rw [hhead] at hsplit
        cases a with
        | nil =>
          obtain rfl := (List.cons.inj hsplit).1
          rw [hplain.1] at hc
          cases hc
        | cons e a => exact ⟨a, by rw [(List.cons.inj hsplit).1]⟩
      refine ⟨d :: a, ?_, ?_, fun hblank => ?_⟩
      · rw [hsplit, List.append_assoc, Text.linesFrom_append ha, List.nil_append, List.cons_append,
          Text.linesFrom_break hc hreturn]
        exact List.mem_cons_self
      · refine loads_eq_none_of_cut (hvalid r List.mem_cons_self) hsplit (List.cons_ne_nil _ _) ?_
        rintro _ ⟨⟩
        exact hencloses
      · have hspace := Text.strip_eq_nil hblank d List.mem_cons_self
        rw [hplain.2] at hspace
        cases hspace
    · have hr' : ∀ c ∈ r.write oneLine 0, Text.isBreak c = false := by
        simpa using hr
      obtain ⟨line, hline, hcut⟩ := ih (fun r' hr' => hvalid r' (List.mem_cons_of_mem _ hr')) (by
        obtain ⟨r', hmem, hbreak⟩ := h
        rcases List.mem_cons.1 hmem with rfl | hmem
        · exact absurd hbreak hr
        · exact ⟨r', hmem, hbreak⟩)
      refine ⟨line, ?_, hcut⟩
      rw [Text.linesFrom_append hr', List.nil_append, Text.linesFrom_break rfl (by decide)]
      exact List.mem_cons_of_mem _ hline

theorem recordsOf_eq_none {body : Text} (h : ∃ line ∈ Text.linesOf body,
    loads line = none ∧ Text.strip line ≠ []) : recordsOf body = none := by
  obtain ⟨line, hline, hloads, hblank⟩ := h
  have hmem : line ∈ (Text.linesOf body).filter fun line => Text.strip line ≠ [] :=
    List.mem_filter.2 ⟨hline, by simpa using hblank⟩
  unfold recordsOf
  generalize (Text.linesOf body).filter (fun line => Text.strip line ≠ []) = lines at hmem
  induction lines with
  | nil => cases hmem
  | cons other lines ih =>
    rw [List.mapM_cons]
    rcases List.mem_cons.1 hmem with rfl | hmem
    · rw [hloads]
      rfl
    · rw [ih hmem]
      cases loads other <;> rfl

theorem recordsOf_body {records : List Json} (hvalid : ∀ r ∈ records, r.Valid)
    (h : ∀ r ∈ records, ∀ c ∈ r.write oneLine 0, Text.isBreak c = false) :
    recordsOf (recordsBody records) = some records := by
  have hfilter : (records.map (Json.write oneLine 0)).filter (fun line => Text.strip line ≠ []) =
      records.map (Json.write oneLine 0) := by
    refine List.filter_eq_self.2 fun line hline => ?_
    obtain ⟨r, -, rfl⟩ := List.mem_map.1 hline
    obtain ⟨c, l, hhead, -⟩ := r.write_eq_cons oneLine 0
    refine decide_eq_true fun hblank => ?_
    have hspace := Text.strip_eq_nil hblank c (by rw [hhead]; exact List.mem_cons_self)
    exact absurd hspace (by rw [r.isSpace_head oneLine 0 hhead]; decide)
  unfold recordsOf
  rw [linesOf_body h, hfilter]
  clear h hfilter
  induction records with
  | nil => rfl
  | cons r records ih =>
    rw [List.map_cons, List.mapM_cons, loads_write oneLine (hvalid r List.mem_cons_self),
      ih fun r' hr' => hvalid r' (List.mem_cons_of_mem _ hr')]
    rfl

/-! ## What comes back -/

section

variable {clock : Clock} {b : Backend} {files : SnapshotFiles} {call : SaveCall}
  {records : List Json} {gaps : List EvidenceGap} {spans : Option (List PodSpan)}

/-- A save that succeeds has written both files. -/
theorem save_eq (h : (save clock b files call records gaps spans).1 = true) :
    (save clock b files call records gaps spans).2 =
      ⟨some (b.written (recordsBody records)),
        some (b.written ((metaJson clock call records.length gaps spans).write indented 0))⟩ := by
  unfold save at h ⊢
  cases hrecords : call.recordsWritten with
  | false =>
    rw [hrecords] at h
    cases h
  | true =>
    cases hmeta : call.metadataWritten with
    | false =>
      rw [hrecords, hmeta] at h
      cases h
    | true => rfl

theorem loadMeta_save (hgaps : ∀ gap ∈ gaps, (Json.object gap.context).Valid)
    (h : (save clock b files call records gaps spans).1 = true) :
    loadMeta b (save clock b files call records gaps spans).2 =
      some (snapshotMeta clock gaps spans) := by
  have hloads := loads_write indented (valid_metaJson clock call records.length hgaps spans)
  rw [save_eq h, loadMeta, Option.bind_some, b.reads_written (return_notMem_indented _), hloads,
    Option.map_some, metaOf_metaJson]

theorem load_save (hgaps : ∀ gap ∈ gaps, (Json.object gap.context).Valid)
    (h : (save clock b files call records gaps spans).1 = true) (hne : records ≠ []) :
    load b (save clock b files call records gaps spans).2 = some (records, gaps) ↔
      recordsOf (recordsBody records) = some records := by
  have hmeta := loadMeta_save hgaps h
  have hrecords : (save clock b files call records gaps spans).2.records =
      some (b.written (recordsBody records)) := by rw [save_eq h]
  unfold load
  rw [hrecords, hmeta, loadGaps_snapshotMeta]
  simp only [Option.bind_eq_bind, Option.bind_some, b.reads_written (return_notMem_body records)]
  cases recordsOf (recordsBody records) with
  | none => simp
  | some found =>
    simp only [Option.bind_some]
    by_cases hfound : found = []
    · simp [hfound, hne.symm]
    · simp [hfound]

theorem forall₂_same_self (l : List PodSpan) : List.Forall₂ PodSpan.Same l l := by
  induction l with
  | nil => exact .nil
  | cons span l ih => exact .cons ⟨rfl, rfl, rfl, rfl⟩ ih

theorem reread_eq_self {span : PodSpan} (h : span.oldestLine ≠ some []) : span.reread = span := by
  obtain ⟨podName, container, oldestLine, startTime⟩ := span
  cases oldestLine with
  | none => rfl
  | some line =>
    have hline : line ≠ [] := fun hnil => h (by rw [hnil])
    simp [PodSpan.reread, Option.filter_some, hline]

theorem same_reread_iff {span : PodSpan} :
    PodSpan.Same span.reread span ↔ span.oldestLine ≠ some [] := by
  constructor
  · rintro ⟨-, -, hline, -⟩ hempty
    have hreread : span.reread.oldestLine = none := by simp [PodSpan.reread, hempty]
    rw [hreread, hempty] at hline
    cases hline
  · intro h
    rw [reread_eq_self h]
    exact ⟨rfl, rfl, rfl, rfl⟩

/-- The spans come back exactly where each has a name, and no empty oldest line. -/
theorem loadSpans_same_iff (l : List PodSpan) :
    List.Forall₂ PodSpan.Same ((l.map (PodSpan.toDict clock)).filterMap (SavedSpan.fromDict clock))
        l ↔ ∀ span ∈ l, span.podName ≠ [] ∧ span.oldestLine ≠ some [] := by
  rw [List.filterMap_map]
  constructor
  · intro h
    have hall := List.filterMap_length_eq_length.1 h.length_eq
    have hnames : ∀ span ∈ l, span.podName ≠ [] := by
      intro span hspan hname
      have hsome := hall span hspan
      have hempty : (span.toDict clock).podName = [] := hname
      rw [Function.comp_apply, SavedSpan.fromDict, if_pos hempty] at hsome
      cases hsome
    have hreread : l.filterMap (SavedSpan.fromDict clock ∘ PodSpan.toDict clock) =
        l.map PodSpan.reread := by
      rw [← List.filterMap_eq_map]
      exact List.filterMap_congr fun span hspan => fromDict_toDict clock (hnames span hspan)
    rw [hreread, List.forall₂_map_left_iff, List.forall₂_same] at h
    exact fun span hspan => ⟨hnames span hspan, same_reread_iff.1 (h span hspan)⟩
  · intro h
    have hself : l.filterMap (SavedSpan.fromDict clock ∘ PodSpan.toDict clock) = l := by
      rw [List.filterMap_congr (g := some) fun span hspan => ?_, List.filterMap_some]
      rw [Function.comp_apply, fromDict_toDict clock (h span hspan).1,
        reread_eq_self (h span hspan).2]
    rw [hself]
    exact forall₂_same_self l

/-- **A snapshot comes back exactly where each record stands on one line and the spans are told.** -/
theorem roundTrips_iff (hne : records ≠ []) (hrecords : ∀ r ∈ records, r.Valid)
    (hgaps : ∀ gap ∈ gaps, (Json.object gap.context).Valid)
    (hsaved : (save clock b files call records gaps spans).1 = true) :
    RoundTrips clock b (save clock b files call records gaps spans).2 records gaps spans ↔
      OnOneLine records ∧ SpansTold spans := by
  have hload := load_save hgaps hsaved hne
  have hevidence : recordsOf (recordsBody records) = some records ↔ OnOneLine records := by
    rw [onOneLine_iff]
    refine ⟨fun h => ?_, fun h => recordsOf_body hrecords h⟩
    by_contra hcut
    simp only [not_forall, Bool.not_eq_false] at hcut
    obtain ⟨r, hr, c, hc, hbreak⟩ := hcut
    rw [recordsOf_eq_none (exists_cut_line hrecords ⟨r, hr, c, hc, hbreak⟩)] at h
    cases h
  have hspans : Option.Rel (List.Forall₂ PodSpan.Same)
      (loadStoredSpans b (save clock b files call records gaps spans).2 clock) spans ↔
      SpansTold spans := by
    rw [loadStoredSpans, loadMeta_save hgaps hsaved]
    unfold loadSpans snapshotMeta SpansTold
    cases spans with
    | none => simp
    | some l => simpa [Option.rel_some_some] using loadSpans_same_iff l
  constructor
  · rintro ⟨hall, hsame⟩
    exact ⟨hevidence.1 (hload.1 hall), hspans.1 hsame⟩
  · rintro ⟨hlines, htold⟩
    exact ⟨hload.2 (hevidence.2 hlines), hspans.2 htold⟩

end

/-! ## One record -/

def savedCall : SaveCall where
  eventId := "E1".toList
  source := "kubernetes".toList
  capturedAt := "2026-08-25T10:00:00+00:00".toList
  lastUpdated := "2026-08-25T10:00:01+00:00".toList
  recordsWritten := true
  metadataWritten := true

/-- A record of a message. -/
def messageRecord (message : Text) : Json := .object [("message".toList, .text message)]

def podSpan : PodSpan where
  podName := "pay-1".toList
  container := []
  oldestLine := none
  startTime := some tenOClock

/-- A message with a line separator is saved, and the snapshot does not load. -/
theorem separator_loses_snapshot :
    let saved := save oneMoment .s3 ⟨none, none⟩ savedCall
      [messageRecord "paid".toList, messageRecord ['a', Char.ofNat 0x2028, 'b']] [] none
    saved.1 = true ∧ load .s3 saved.2 = none ∧
      ¬ RoundTrips oneMoment .s3 saved.2
        [messageRecord "paid".toList, messageRecord ['a', Char.ofNat 0x2028, 'b']] [] none := by
  have hnone : load .s3 (save oneMoment .s3 ⟨none, none⟩ savedCall
      [messageRecord "paid".toList, messageRecord ['a', Char.ofNat 0x2028, 'b']] [] none).2 =
        none := by decide +kernel
  refine ⟨rfl, hnone, fun h => ?_⟩
  have hload := h.evidence
  rw [hnone] at hload
  cases hload

/-- A message with a line feed comes back, from a text file with either end of line. -/
theorem roundTrips_line_feed :
    RoundTrips oneMoment (.local .crlf)
      (save oneMoment (.local .crlf) ⟨none, none⟩ savedCall [messageRecord "a\nb".toList] []
        (some [podSpan])).2 [messageRecord "a\nb".toList] [] (some [podSpan]) := by
  refine (roundTrips_iff (List.cons_ne_nil _ _) (fun r hr => ?_)
    (fun _ h => absurd h List.not_mem_nil) rfl).2 ⟨?_, ?_⟩
  · obtain rfl := List.mem_singleton.1 hr
    simp [messageRecord, Json.text, Json.Valid, Json.ValidFields]
  · intro r hr t ht c hc
    obtain rfl := List.mem_singleton.1 hr
    have hall : ["message".toList, "a\nb".toList].all (·.all (!isWideBreak ·)) = true := rfl
    simpa using List.all_eq_true.1 (List.all_eq_true.1 hall t ht) c hc
  · rintro _ ⟨⟩ span hspan
    obtain rfl := List.mem_singleton.1 hspan
    exact ⟨by decide, by decide⟩

end ResidentCrm.Logs
