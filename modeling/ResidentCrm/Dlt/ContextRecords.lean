import ResidentCrm.Dlt.TraceText

/-!
# Context records and the verdict

A record that only stands beside a match is tagged, and an exception that only such records name
should accuse nobody. It does exactly where something that is shown of the records names it, at
error level, below a start of a record without the tag: a line of a record's own message that looks
like a start, any record of the normal path, which tags none, or the text below a cut
(`context_never_accuses_iff`).
-/

namespace ResidentCrm.Dlt.Corroborate

open Text (joinLines piecesBefore piecesAfter)
open Logs

universe u

section

variable {σ : Type u} (alnum : Char → Bool) (p : Pipeline σ) (eventId : Text) (fetched : Fetched)

/-! ## What is shown -/

/-- The path that the records take. -/
def pathOf : Path :=
  let logs := (floored p fetched).1
  if logs.length < 50 then .small logs
  else match branchOnError p.config logs with
    | some payload => .error (collapseErrorWindow p.miner p.config payload)
    | none => .normal <| applyEvidenceGuardrails p.config p.vocabulary
        (clusterLogs p.miner p.getClassification p.tree logs) logs

theorem traceLines_eq :
    traceLines p eventId fetched = (pathOf p fetched).lines eventId fetched.records.length := by
  unfold traceLines pathOf
  simp only
  split
  · rfl
  · cases branchOnError p.config (floored p fetched).1 <;> rfl

def body : Text := joinLines (traceLines p eventId fetched)

/-- The pieces of the trace. -/
def units : List Text := (pathOf p fetched).units eventId fetched.records.length

/-- The ceiling cuts the trace. -/
def IsCut : Prop := p.config.maxReducedChars < (body p eventId fetched).length

instance : Decidable (IsCut p eventId fetched) := inferInstanceAs (Decidable (_ < _))

def cutBefore : List Text :=
  piecesBefore (keep p.config.maxReducedChars (body p eventId fetched)) (units p eventId fetched)

def cutAfter : List Text :=
  piecesAfter (tailStart p.config.maxReducedChars (body p eventId fetched))
    (units p eventId fetched)

def bannerPieces : List Text :=
  if fullBanner p fetched = [] then [] else [fullBanner p fetched, []]

/-- The pieces of the text, those above the cut where there is one. -/
def above : List Text :=
  bannerPieces p fetched ++ if IsCut p eventId fetched then
    cutBefore p eventId fetched ++
      [[], omittedNotice (excess p.config.maxReducedChars (body p eventId fetched)), []]
  else units p eventId fetched

/-- The pieces of the text below the cut. -/
def below : List Text := if IsCut p eventId fetched then cutAfter p eventId fetched else []

theorem joinLines_units : joinLines (units p eventId fetched) = body p eventId fetched := by
  rw [units, Path.joinLines_units, ← traceLines_eq, body]

/-- **The text is joined from its pieces.** -/
theorem reduceLogs_eq (h : fetched.records ≠ []) :
    reduceLogs p eventId fetched = joinLines (above p eventId fetched ++ below p eventId fetched) := by
  have hunits : units p eventId fetched ≠ [] := Path.units_ne_nil _ _ _
  have hbody := joinLines_units p eventId fetched
  have hbound : ∃ piece pieces, boundTotalSize p.config.maxReducedChars (body p eventId fetched) =
      joinLines (piece :: pieces) ∧
      above p eventId fetched ++ below p eventId fetched =
        bannerPieces p fetched ++ piece :: pieces := by
    unfold above below
    by_cases hcut : IsCut p eventId fetched
    · have hbefore := Text.piecesBefore_ne_nil hunits
        (keep p.config.maxReducedChars (body p eventId fetched))
      obtain ⟨piece, pieces, hpieces⟩ := List.exists_cons_of_ne_nil hbefore
      have hlimit : p.config.maxReducedChars < (joinLines (units p eventId fetched)).length := by
        rw [hbody]
        exact hcut
      have hcutText := boundTotalSize_cut hunits hlimit
      rw [hbody, hpieces] at hcutText
      refine ⟨piece, _, hcutText, ?_⟩
      rw [if_pos hcut, if_pos hcut, List.append_assoc, cutBefore, cutAfter, hpieces]
      rfl
    · obtain ⟨piece, pieces, hpieces⟩ := List.exists_cons_of_ne_nil hunits
      refine ⟨piece, pieces, ?_, ?_⟩
      · rw [boundTotalSize, if_pos (not_lt.1 hcut), ← hbody, hpieces]
      · rw [if_neg hcut, if_neg hcut, List.append_nil, hpieces]
  obtain ⟨piece, pieces, hbound, hshown⟩ := hbound
  have htext : reduceLogs p eventId fetched =
      withBanner p.config.maxReducedChars (fullBanner p fetched) (body p eventId fetched) := by
    rw [reduceLogs, if_neg h, body]
  rw [htext, hshown, withBanner, bannerPieces, hbound]
  split
  · rfl
  · rw [List.cons_append, List.singleton_append, Text.joinLines_cons_cons,
      Text.joinLines_cons_cons, List.append_assoc]
    rfl

/-- Something is shown. -/
theorem exists_shown : ∃ piece ∈ above p eventId fetched ++ below p eventId fetched,
    ∃ c ∈ piece, Text.isSpace c = false := by
  by_cases hcut : IsCut p eventId fetched
  · refine ⟨omittedNotice (excess p.config.maxReducedChars (body p eventId fetched)), ?_, '.', ?_,
      by decide⟩
    · rw [above, if_pos hcut]
      simp
    · exact List.mem_append_left _ (List.mem_append_left _ (by decide))
  · obtain ⟨unit, hunit, hdash⟩ := Path.exists_dash eventId fetched.records.length (pathOf p fetched)
    refine ⟨unit, ?_, '-', hdash, by decide⟩
    rw [above, if_neg hcut]
    exact List.mem_append_left _ (List.mem_append_right _ hunit)

/-! ## What is not a record -/

/-- What the text says beside the records: the identifier, the lowest level, the notes, and the
details of the gaps. -/
def said : List Text :=
  eventId :: p.config.minLevel :: (fetched.notes ++ fetched.gaps.map EvidenceGap.detail)

/-- The exception stands on a record that did not carry the identifier, on none that did, and
nowhere else. -/
structure OnlyOnContext (fqcn : Text) : Prop where
  onContext : ∃ record ∈ fetched.records, record.isMatch = false ∧
    fqcn ∈ fqcnsIn alnum (recordLine record)
  notOnOwn : ∀ record ∈ fetched.records, record.isMatch = true →
    fqcn ∉ fqcnsIn alnum (recordLine record)
  notSaid : ∀ text ∈ said p eventId fetched, ¬ fqcn <:+: text

variable {alnum p eventId fetched}

theorem OnlyOnContext.isName {fqcn : Text} (h : OnlyOnContext alnum p eventId fetched fqcn) :
    IsName alnum fqcn := by
  obtain ⟨record, -, -, hfqcn⟩ := h.onContext
  exact isName_of_mem_findFqcns hfqcn

theorem OnlyOnContext.not_infix_banner {fqcn : Text}
    (h : OnlyOnContext alnum p eventId fetched fqcn) : ¬ fqcn <:+: fullBanner p fetched := by
  have hgap : ∀ gap ∈ fetched.gaps, ¬ fqcn <:+: gap.detail := fun gap hgap =>
    h.notSaid _ (List.mem_cons_of_mem _ (List.mem_cons_of_mem _
      (List.mem_append_right _ (List.mem_map_of_mem hgap))))
  have hminLevel : (floored p fetched).2.minLevel = p.config.minLevel := by
    unfold floored
    simp only
    split <;> rfl
  refine h.isName.not_infix_joinSome fun piece hpiece => ?_
  simp only [List.mem_cons, List.not_mem_nil, or_false] at hpiece
  rcases hpiece with rfl | rfl
  · refine h.isName.not_infix_joinSome fun piece hpiece => ?_
    rcases List.mem_cons.1 hpiece with rfl | hnote
    · exact h.isName.not_infix_renderBanner hgap
    · exact h.notSaid _ (List.mem_cons_of_mem _ (List.mem_cons_of_mem _
        (List.mem_append_left _ hnote)))
  · refine h.isName.not_infix_noiseBanner _ ?_
    rw [hminLevel]
    exact h.notSaid _ (List.mem_cons_of_mem _ List.mem_cons_self)

/-- Each piece of the trace opens a record or does not hold the exception. -/
theorem OnlyOnContext.apart_units {fqcn unit : Text}
    (h : OnlyOnContext alnum p eventId fetched fqcn) (hunit : unit ∈ units p eventId fetched) :
    Apart fqcn unit :=
  (Path.entry_or_not_infix h.isName (h.notSaid _ List.mem_cons_self) hunit).imp_left
    Path.led_of_mem_entries

theorem OnlyOnContext.apart_cutBefore {fqcn piece : Text}
    (h : OnlyOnContext alnum p eventId fetched fqcn) (hpiece : piece ∈ cutBefore p eventId fetched) :
    Apart fqcn piece := by
  obtain ⟨whole, hwhole, hbegins⟩ := Text.prefix_of_mem_before hpiece
  exact (h.apart_units hwhole).of_begins h.isName hbegins

theorem OnlyOnContext.not_infix_bannerPieces {fqcn piece : Text}
    (h : OnlyOnContext alnum p eventId fetched fqcn) (hpiece : piece ∈ bannerPieces p fetched) :
    ¬ fqcn <:+: piece := by
  unfold bannerPieces at hpiece
  split at hpiece
  · cases hpiece
  · simp only [List.mem_cons, List.not_mem_nil, or_false] at hpiece
    rcases hpiece with rfl | rfl
    · exact h.not_infix_banner
    · exact h.isName.not_infix_bare rfl

theorem OnlyOnContext.not_infix_notice {fqcn piece : Text} {omitted : ℕ}
    (h : OnlyOnContext alnum p eventId fetched fqcn)
    (hpiece : piece ∈ [[], omittedNotice omitted, []]) : ¬ fqcn <:+: piece := by
  simp only [List.mem_cons, List.not_mem_nil, or_false] at hpiece
  rcases hpiece with rfl | rfl | rfl
  · exact h.isName.not_infix_bare rfl
  · exact h.isName.not_infix_notice _
  · exact h.isName.not_infix_bare rfl

theorem OnlyOnContext.apart_above {fqcn piece : Text}
    (h : OnlyOnContext alnum p eventId fetched fqcn) (hpiece : piece ∈ above p eventId fetched) :
    Apart fqcn piece := by
  rcases List.mem_append.1 hpiece with hpiece | hpiece
  · exact .inr (h.not_infix_bannerPieces hpiece)
  · split at hpiece
    · rcases List.mem_append.1 hpiece with hpiece | hpiece
      · exact h.apart_cutBefore hpiece
      · exact .inr (h.not_infix_notice hpiece)
    · exact h.apart_units hpiece

/-! ## What exposes an exception -/

/-- The timestamp, the origin and the level stand on one line. -/
def HeaderOnOneLine (record : TraceRecord) : Prop :=
  ∀ c ∈ record.timestamp ++ origin record ++ record.level, Text.isBreak c = false

instance (record : TraceRecord) : Decidable (HeaderOnOneLine record) :=
  inferInstanceAs (Decidable (∀ c ∈ _, _))

/-- What the trace shows: a record behind a gutter, with the note of what was folded into it; a
record of the normal path; or a template with its examples. -/
inductive Shown where
  | marked (gutter : Text) (entry : WindowEntry)
  | plain (record : TraceRecord)
  | template (cluster : Cluster)

namespace Shown

/-- What follows the header of a record: its message, and the note. -/
def following (entry : WindowEntry) : Text :=
  joinLines (entry.record.message ::
    (entry.note.map fun note => "          ".toList ++ note).toList)

/-- The text of it; a context record is marked behind its level, but on the normal path. -/
def text : Shown → Text
  | marked gutter entry =>
    gutter ++ '[' :: (entry.record.timestamp ++ "] [".toList ++ origin entry.record ++
      "] [".toList ++ entry.record.level ++
        if entry.record.isMatch then "] ".toList else "] [context] ".toList) ++ following entry
  | plain record => "  [".toList ++
    (record.timestamp ++ "] [".toList ++ record.level ++ "] ".toList ++ record.message)
  | template cluster => joinLines cluster.lines

/-- What is shown exposes an exception: of a context record with its header on one line, some line
of the message below the first, or of the note, that is at error level and names it, below one of
these lines that starts like a record and is not marked; of anything else, any such line of it. -/
def Exposes (alnum : Char → Bool) (fqcn : Text) : Shown → Prop
  | marked gutter entry =>
    if entry.record.isMatch = false ∧ HeaderOnOneLine entry.record then
      Blames alnum fqcn false ((Text.splitlines (following entry)).tail.filter (· ≠ []))
    else Blames alnum fqcn true (Text.lines (marked gutter entry).text)
  | shown => Blames alnum fqcn true (Text.lines shown.text)

/-- **A marked record exposes an exception exactly where the lines below its first do, none of the
lines above them being the packet's.** -/
theorem blames_marked_iff {gutter : Text} {entry : WindowEntry} (hgutter : gutter ∈ gutters)
    (h : entry.record.isMatch = false) (hline : HeaderOnOneLine entry.record) {fqcn : Text} :
    Blames alnum fqcn true (Text.lines (marked gutter entry).text) ↔
      Blames alnum fqcn false ((Text.splitlines (following entry)).tail.filter (· ≠ [])) := by
  have hof : ∀ s : Text, s.all (!Text.isBreak ·) = true → ∀ c ∈ s, Text.isBreak c = false :=
    fun s hs c hc => by simpa using List.all_eq_true.1 hs c hc
  have hgutters : gutters.all (·.all (!Text.isBreak ·)) = true := rfl
  have hplain : ∀ c ∈ gutter ++ '[' :: (entry.record.timestamp ++ "] [".toList ++
      origin entry.record ++ "] [".toList ++ entry.record.level ++ "] [context] ".toList),
      Text.isBreak c = false := by
    unfold HeaderOnOneLine at hline
    simp only [List.forall_mem_append, List.forall_mem_cons] at hline ⊢
    obtain ⟨⟨htimestamp, horigin⟩, hlevel⟩ := hline
    exact ⟨hof _ (List.all_eq_true.1 hgutters _ hgutter), rfl, ⟨⟨⟨⟨htimestamp, hof _ rfl⟩, horigin⟩,
      hof _ rfl⟩, hlevel⟩, hof _ rfl⟩
  obtain ⟨line, hlines⟩ := lines_append_plain (by simp) hplain (following entry)
  rw [text, h, if_neg Bool.false_ne_true, hlines]
  refine blames_of_marked ?_ (Text.has_iff.2 ?_)
  · rw [List.append_assoc, List.cons_append]
    exact isLineStart_gutter hgutter _
  · have hmarker : contextLineMarker <:+: "] [context] ".toList := ⟨"] ".toList, [' '], rfl⟩
    refine List.IsInfix.trans ?_ (List.prefix_append _ _).isInfix
    refine List.IsInfix.trans ?_ ((List.suffix_cons _ _).trans (List.suffix_append _ _)).isInfix
    exact hmarker.trans (List.suffix_append _ _).isInfix

theorem exposes_iff {shown : Shown} (h : ∀ gutter entry, shown = marked gutter entry →
    gutter ∈ gutters) {fqcn : Text} :
    shown.Exposes alnum fqcn ↔ Blames alnum fqcn true (Text.lines shown.text) := by
  cases shown with
  | marked gutter entry =>
    rw [Exposes]
    split
    · next hmarked => exact (blames_marked_iff (h gutter entry rfl) hmarked.1 hmarked.2).symm
    · exact Iff.rfl
  | _ => exact Iff.rfl

end Shown

/-- What is shown on a path, in its order. -/
def shownOn : Path → List Shown
  | .small logs => logs.map fun record => .marked [] { record }
  | .error window => window.map fun entry => .marked (gutter entry.record) entry
  | .normal assembled => (assembled.boundaryLines ++ assembled.decisionVocabularyLines).map .plain ++
      assembled.clusters.map .template

theorem map_text_shownOn (path : Path) : (shownOn path).map Shown.text = path.entries := by
  have hmarked : ∀ gutter (entry : WindowEntry), (Shown.marked gutter entry).text =
      joinLines ((gutter ++ recordLine entry.record) ::
        (entry.note.map fun note => "          ".toList ++ note).toList) := by
    intro gutter entry
    have htag : ∀ message : Text, ']' :: (contextTag entry.record ++ ' ' :: message) =
        (if entry.record.isMatch then "] ".toList else "] [context] ".toList) ++ message := by
      intro message
      unfold contextTag
      split
      · rfl
      · rfl
    have hline : gutter ++ recordLine entry.record = gutter ++ '[' :: (entry.record.timestamp ++
        "] [".toList ++ origin entry.record ++ "] [".toList ++ entry.record.level ++
          if entry.record.isMatch then "] ".toList else "] [context] ".toList) ++
            entry.record.message := by
      rw [recordLine, htag]
      simp only [List.append_assoc, List.cons_append]
    rw [hline, Text.joinLines_cons_append]
    rfl
  cases path with
  | small logs =>
    rw [shownOn, List.map_map, Path.entries]
    refine List.map_congr_left fun record _ => ?_
    rw [Function.comp_apply, hmarked]
    exact Text.joinLines_singleton _
  | error window =>
    rw [shownOn, List.map_map, Path.entries]
    exact List.map_congr_left fun entry _ => hmarked _ _
  | normal assembled =>
    rw [shownOn, Path.entries, List.map_append, List.map_map, List.map_map, List.map_append]
    rfl

theorem gutter_of_mem_shownOn {path : Path} {shown : Shown} (h : shown ∈ shownOn path) :
    ∀ gutter entry, shown = .marked gutter entry → gutter ∈ gutters := by
  rintro gutter' entry' rfl
  cases path with
  | small logs =>
    obtain ⟨record, -, hrecord⟩ := List.mem_map.1 h
    obtain ⟨rfl, -⟩ := Shown.marked.inj hrecord
    decide
  | error window =>
    obtain ⟨entry, -, hentry⟩ := List.mem_map.1 h
    obtain ⟨rfl, -⟩ := Shown.marked.inj hentry
    unfold gutter
    split <;> decide
  | normal assembled =>
    rcases List.mem_append.1 h with h | h
    · obtain ⟨record, -, hrecord⟩ := List.mem_map.1 h
      cases hrecord
    · obtain ⟨cluster, -, hcluster⟩ := List.mem_map.1 h
      cases hcluster

/-- Whole pieces accuse of the exception exactly where one of what is shown whole exposes it. -/
theorem exists_blames_iff_exposes (path : Path) {pieces : List Text} {fqcn : Text}
    (h : ∀ piece ∈ pieces, piece ∈ path.entries ∨ ¬ fqcn <:+: piece) :
    (∃ piece ∈ pieces, Blames alnum fqcn true (Text.lines piece)) ↔
      ∃ shown ∈ shownOn path, shown.text ∈ pieces ∧ shown.Exposes alnum fqcn := by
  constructor
  · rintro ⟨piece, hpiece, hblames⟩
    have hentry := (h piece hpiece).resolve_right (not_not_intro (infix_of_blames hblames))
    rw [← map_text_shownOn] at hentry
    obtain ⟨shown, hshown, rfl⟩ := List.mem_map.1 hentry
    exact ⟨shown, hshown, hpiece, (Shown.exposes_iff (gutter_of_mem_shownOn hshown)).2 hblames⟩
  · rintro ⟨shown, hshown, hpiece, hexposes⟩
    exact ⟨_, hpiece, (Shown.exposes_iff (gutter_of_mem_shownOn hshown)).1 hexposes⟩

variable (alnum p eventId fetched)

/-- What is shown of a record or a template exposes the exception. Where the ceiling cuts the trace,
that is so of one that is whole; or what the cut leaves of one names it: above the cut as a text by
itself, below it as the text goes on with what is left of a record without its start, under the
nearest start above the cut. -/
def Exposed (fqcn : Text) : Prop :=
  if IsCut p eventId fetched then
    (∃ shown ∈ shownOn (pathOf p fetched), shown.text ∈
        (cutBefore p eventId fetched).dropLast ++ (cutAfter p eventId fetched).tail ∧
      shown.Exposes alnum fqcn) ∨
    (∃ shown ∈ shownOn (pathOf p fetched), ∃ piece ∈ (cutBefore p eventId fetched).getLast?,
      piece <+: shown.text ∧ Blames alnum fqcn true (Text.lines piece)) ∨
    ∃ shown ∈ shownOn (pathOf p fetched), ∃ piece ∈ (cutAfter p eventId fetched).head?,
      piece <:+ shown.text ∧ Blames alnum fqcn
        (owned true ((above p eventId fetched).flatMap Text.lines)) (Text.lines piece)
  else ∃ shown ∈ shownOn (pathOf p fetched), shown.Exposes alnum fqcn

variable {alnum p eventId fetched}

/-- What stands in a piece of the trace stands in what is shown. -/
theorem OnlyOnContext.exists_shown_of_unit {fqcn unit : Text}
    (h : OnlyOnContext alnum p eventId fetched fqcn) (hunit : unit ∈ units p eventId fetched)
    (hin : fqcn <:+: unit) : ∃ shown ∈ shownOn (pathOf p fetched), shown.text = unit := by
  have hentry := (Path.entry_or_not_infix h.isName (h.notSaid _ List.mem_cons_self)
    hunit).resolve_right (not_not_intro hin)
  rw [← map_text_shownOn] at hentry
  exact List.mem_map.1 hentry

theorem exists_mem_dropLast_or_getLast? {α : Type*} {items : List α} {P : α → Prop} :
    (∃ item ∈ items, P item) ↔
      (∃ item ∈ items.dropLast, P item) ∨ ∃ item ∈ items.getLast?, P item := by
  induction items using List.reverseRecOn with
  | nil => simp
  | append_singleton items item => simp [or_and_right, exists_or]

section

variable {fqcn : Text}

theorem OnlyOnContext.blames_above_cut (h : OnlyOnContext alnum p eventId fetched fqcn)
    (hcut : IsCut p eventId fetched) :
    (∃ piece ∈ above p eventId fetched, Blames alnum fqcn true (Text.lines piece)) ↔
      (∃ piece ∈ (cutBefore p eventId fetched).dropLast,
        Blames alnum fqcn true (Text.lines piece)) ∨
      ∃ piece ∈ (cutBefore p eventId fetched).getLast?,
        Blames alnum fqcn true (Text.lines piece) := by
  rw [← exists_mem_dropLast_or_getLast?]
  refine exists_blames_iff ?_ fun piece hpiece => ?_
  · intro piece hpiece
    rw [above, if_pos hcut]
    exact List.mem_append_right _ (List.mem_append_left _ hpiece)
  · rw [above, if_pos hcut, List.mem_append, List.mem_append] at hpiece
    rcases hpiece with hpiece | hpiece | hpiece
    · exact .inr (h.not_infix_bannerPieces hpiece)
    · exact .inl hpiece
    · exact .inr (h.not_infix_notice hpiece)

theorem OnlyOnContext.blames_below_cut (h : OnlyOnContext alnum p eventId fetched fqcn)
    (hcut : IsCut p eventId fetched) (inherited : Bool) :
    Blames alnum fqcn inherited ((below p eventId fetched).flatMap Text.lines) ↔
      (∃ piece ∈ (cutAfter p eventId fetched).head?,
        Blames alnum fqcn inherited (Text.lines piece)) ∨
      ∃ piece ∈ (cutAfter p eventId fetched).tail, Blames alnum fqcn true (Text.lines piece) := by
  rw [below, if_pos hcut]
  have hne : cutAfter p eventId fetched ≠ [] :=
    Text.piecesAfter_ne_nil (Path.units_ne_nil _ _ _) _
  have hwhole : ∀ piece ∈ (cutAfter p eventId fetched).tail, Confined fqcn piece :=
    fun piece hpiece => (h.apart_units (Text.mem_of_mem_tail_after hpiece)).confined
  obtain ⟨piece, pieces, hpieces⟩ := List.exists_cons_of_ne_nil hne
  rw [hpieces, List.tail_cons] at hwhole
  rw [hpieces, List.flatMap_cons, blames_append, blames_pieces hwhole, List.head?_cons,
    List.tail_cons]
  simp only [Option.mem_some_iff, exists_eq_left']

theorem OnlyOnContext.entry_or_not_infix (h : OnlyOnContext alnum p eventId fetched fqcn)
    {piece : Text} (hpiece : piece ∈ units p eventId fetched) :
    piece ∈ (pathOf p fetched).entries ∨ ¬ fqcn <:+: piece :=
  Path.entry_or_not_infix h.isName (h.notSaid _ List.mem_cons_self) hpiece

/-- What is whole on either side of the cut. -/
theorem OnlyOnContext.blames_whole (h : OnlyOnContext alnum p eventId fetched fqcn) :
    ((∃ piece ∈ (cutBefore p eventId fetched).dropLast,
          Blames alnum fqcn true (Text.lines piece)) ∨
        ∃ piece ∈ (cutAfter p eventId fetched).tail, Blames alnum fqcn true (Text.lines piece)) ↔
      ∃ shown ∈ shownOn (pathOf p fetched), shown.text ∈
          (cutBefore p eventId fetched).dropLast ++ (cutAfter p eventId fetched).tail ∧
        shown.Exposes alnum fqcn := by
  rw [← exists_blames_iff_exposes]
  · simp only [List.mem_append, or_and_right, exists_or]
  · intro piece hpiece
    rcases List.mem_append.1 hpiece with hpiece | hpiece
    · exact h.entry_or_not_infix (Text.mem_of_mem_dropLast_before hpiece)
    · exact h.entry_or_not_infix (Text.mem_of_mem_tail_after hpiece)

/-- What is left of a piece that the cut falls in names the exception only if the piece is what is
shown of a record or a template. -/
theorem OnlyOnContext.blames_left (h : OnlyOnContext alnum p eventId fetched fqcn)
    (pieces : Option Text) (inherited : Bool) (Left : Text → Text → Prop)
    (hleft : ∀ piece ∈ pieces, ∃ whole ∈ units p eventId fetched, Left piece whole)
    (hin : ∀ piece whole, Left piece whole → piece <:+: whole) :
    (∃ piece ∈ pieces, Blames alnum fqcn inherited (Text.lines piece)) ↔
      ∃ shown ∈ shownOn (pathOf p fetched), ∃ piece ∈ pieces, Left piece shown.text ∧
        Blames alnum fqcn inherited (Text.lines piece) := by
  constructor
  · rintro ⟨piece, hpiece, hblames⟩
    obtain ⟨whole, hwhole, hof⟩ := hleft piece hpiece
    obtain ⟨shown, hshown, rfl⟩ := h.exists_shown_of_unit hwhole
      ((infix_of_blames hblames).trans (hin piece whole hof))
    exact ⟨shown, hshown, piece, hpiece, hof, hblames⟩
  · rintro ⟨-, -, piece, hpiece, -, hblames⟩
    exact ⟨piece, hpiece, hblames⟩

/-- **What the text accuses of is what is exposed.** -/
theorem OnlyOnContext.blames_iff (h : OnlyOnContext alnum p eventId fetched fqcn) :
    Blames alnum fqcn true (Text.lines (reduceLogs p eventId fetched)) ↔
      Exposed alnum p eventId fetched fqcn := by
  obtain ⟨record, hrecord, -⟩ := h.onContext
  rw [reduceLogs_eq p eventId fetched (List.ne_nil_of_mem hrecord), Text.lines_joinLines,
    List.flatMap_append, blames_append,
    blames_pieces fun piece hpiece => (h.apart_above hpiece).confined]
  unfold Exposed
  by_cases hcut : IsCut p eventId fetched
  · have hlast := h.blames_left (cutBefore p eventId fetched).getLast? true (· <+: ·)
      (fun piece hpiece => Text.prefix_of_mem_before (List.mem_of_getLast? hpiece))
      fun _ _ h => h.isInfix
    have hfirst := h.blames_left (cutAfter p eventId fetched).head?
      (owned true ((above p eventId fetched).flatMap Text.lines)) (· <:+ ·)
      (fun piece hpiece => Text.suffix_of_mem_head?_after hpiece) fun _ _ h => h.isInfix
    have hregroup : ∀ {a b c d : Prop}, (a ∨ b) ∨ c ∨ d ↔ (a ∨ d) ∨ b ∨ c :=
      (or_congr_right or_comm).trans or_or_or_comm
    rw [if_pos hcut, h.blames_above_cut hcut, h.blames_below_cut hcut, hregroup, h.blames_whole,
      hlast, hfirst]
  · rw [if_neg hcut, below, if_neg hcut, List.flatMap_nil, or_iff_left]
    · rw [exists_blames_iff_exposes (pathOf p fetched)]
      · refine exists_congr fun shown => and_congr_right fun hshown => and_iff_right ?_
        rw [above, if_neg hcut]
        refine List.mem_append_right _ (Path.mem_units_of_mem_entries ?_)
        rw [← map_text_shownOn]
        exact List.mem_map_of_mem hshown
      · intro piece hpiece
        rw [above, if_neg hcut, List.mem_append] at hpiece
        rcases hpiece with hpiece | hpiece
        · exact .inr (h.not_infix_bannerPieces hpiece)
        · exact h.entry_or_not_infix hpiece
    · simp [blames_iff_scanned, scanLines]

end

/-! ## Whether the text is looked at -/

variable (p eventId fetched)

/-- The text says that the logs could not be looked at, or that there are none. -/
def Unread : Prop :=
  ∃ marker ∈ skipMarkers ++ emptyMarkers,
    ∃ piece ∈ above p eventId fetched ++ below p eventId fetched, marker <:+: piece

variable {p eventId fetched}

theorem notLooked_iff (h : fetched.records ≠ []) :
    NotLooked (reduceLogs p eventId fetched) ↔ Unread p eventId fetched := by
  have hmarker : ∀ marker ∈ skipMarkers ++ emptyMarkers, marker ≠ [] ∧ '\n' ∉ marker := by decide
  have hstrip : Text.strip (reduceLogs p eventId fetched) ≠ [] := by
    obtain ⟨piece, hpiece, c, hc, hspace⟩ := exists_shown p eventId fetched
    intro hnil
    have hmem : c ∈ reduceLogs p eventId fetched := by
      rw [reduceLogs_eq p eventId fetched h]
      exact Text.mem_joinLines hpiece hc
    rw [Text.strip_eq_nil hnil c hmem] at hspace
    cases hspace
  unfold NotLooked Unread
  rw [or_iff_right hstrip, List.any_eq_true]
  refine exists_congr fun marker => and_congr_right fun hmem => ?_
  obtain ⟨hne, hbreak⟩ := hmarker marker hmem
  rw [Text.has_iff, reduceLogs_eq p eventId fetched h, Text.infix_joinLines hne hbreak]

/-! ## What context records accuse of -/

variable (alnum p eventId fetched) (declared : Declared) (frames : List Text)

/-- No exception that stands on context records alone is unexplained, and no discrepancy rests on
such exceptions alone. -/
structure NeverAccuses : Prop where
  notUnexplained : ∀ fqcn, OnlyOnContext alnum p eventId fetched fqcn →
    fqcn ∉ (corroborate alnum (reduceLogs p eventId fetched) declared frames).unexplained
  restsOnOther :
    (corroborate alnum (reduceLogs p eventId fetched) declared frames).isDiscrepancy = true →
      ∃ fqcn ∈ (corroborate alnum (reduceLogs p eventId fetched) declared frames).unexplained,
        ¬ OnlyOnContext alnum p eventId fetched fqcn

/-- **Context records never accuse exactly where the text is not looked at, or exposes no exception
that stands on them alone and is not explained.** -/
theorem context_never_accuses_iff :
    NeverAccuses alnum p eventId fetched declared frames ↔
      Unread p eventId fetched ∨ ∀ fqcn, OnlyOnContext alnum p eventId fetched fqcn →
        declared.explains fqcn = false → ¬ Exposed alnum p eventId fetched fqcn := by
  have hunexplained : ∀ fqcn, OnlyOnContext alnum p eventId fetched fqcn →
      (fqcn ∈ (corroborate alnum (reduceLogs p eventId fetched) declared frames).unexplained ↔
        ¬ Unread p eventId fetched ∧ declared.explains fqcn = false ∧
          Exposed alnum p eventId fetched fqcn) := by
    intro fqcn h
    obtain ⟨record, hrecord, -⟩ := h.onContext
    rw [mem_unexplained_iff, notLooked_iff (List.ne_nil_of_mem hrecord), h.blames_iff]
  constructor
  · intro h
    by_cases hunread : Unread p eventId fetched
    · exact .inl hunread
    · refine .inr fun fqcn honly hexplains hexposed => ?_
      exact h.notUnexplained fqcn honly ((hunexplained fqcn honly).2
        ⟨hunread, hexplains, hexposed⟩)
  · intro h
    have hnot : ∀ fqcn, OnlyOnContext alnum p eventId fetched fqcn →
        fqcn ∉ (corroborate alnum (reduceLogs p eventId fetched) declared frames).unexplained := by
      intro fqcn honly hmem
      obtain ⟨hread, hexplains, hexposed⟩ := (hunexplained fqcn honly).1 hmem
      exact h.elim hread fun hall => hall fqcn honly hexplains hexposed
    refine ⟨hnot, fun hdiscrepancy => ?_⟩
    obtain ⟨fqcn, hfqcn⟩ := List.exists_mem_of_ne_nil _ (unexplained_ne_nil hdiscrepancy)
    exact ⟨fqcn, hfqcn, fun honly => hnot fqcn honly hfqcn⟩

end

/-- Each message is of one template, and nothing is redacted. -/
def plainPipeline : Pipeline Unit where
  miner := { fresh := (), addLogMessage := fun tree _ => (tree, 1), clusters := fun _ => [] }
  tree := ()
  getClassification _ := "unknown".toList
  vocabulary _ := false
  redact message := message

/-- A failure of the packet's, and beside it one line of another's whose message goes on with a line
in brackets. -/
def besideAnother : Fetched where
  records :=
    [{ timestamp := "10:00:01".toList
       level := "ERROR".toList
       message := "com.acme.orders.OrderException: no stock".toList
       appName := "orders".toList
       identifierMatch := some true },
     { timestamp := "10:00:02".toList
       level := "INFO".toList
       message := "worker said\n[worker-2] ERROR com.acme.pay.CardException: declined".toList
       appName := "orders".toList
       identifierMatch := some false }]

/-- The other packet's exception accuses this one's trace. -/
theorem another_accuses : ¬ NeverAccuses (fun _ => false) plainPipeline "E1".toList besideAnother
    ⟨"com.acme.orders.OrderException".toList, [], []⟩ [] := by
  intro h
  have honly : OnlyOnContext (fun _ => false) plainPipeline "E1".toList besideAnother
      "com.acme.pay.CardException".toList := by
    refine ⟨?_, ?_, ?_⟩ <;> decide +kernel
  refine h.notUnexplained _ honly (mem_unexplained_iff.2 ⟨?_, by decide, ?_⟩)
  · unfold NotLooked
    decide +kernel
  · rw [blames_iff_scanned]
    decide +kernel

end ResidentCrm.Dlt.Corroborate
