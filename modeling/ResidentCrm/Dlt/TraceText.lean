import ResidentCrm.Dlt.Attribution
import ResidentCrm.Logs.Pipeline

/-!
# A trace in pieces

The text of `reduce_logs` is joined from pieces: what is shown of a record or of a cluster, which
opens a record, and the scaffolding around them, which names no exception that nothing else names
(`apart_of_mem_units`). A cut leaves such pieces, but for the one that the text goes on with.
-/

namespace ResidentCrm.Dlt.Corroborate

open Text (joinLines)
open Logs

universe u

/-! ## Pieces that open a record -/

def gutters : List Text := [[], "  ".toList, "     ".toList, " *** ".toList]

/-- The piece opens a record, behind one of the gutters. -/
def Led (piece : Text) : Prop := ∃ gutter ∈ gutters, ∃ rest, piece = gutter ++ '[' :: rest

theorem splitlines_append_plain {a : Text} (h : ∀ c ∈ a, Text.isBreak c = false) (b : Text) :
    Text.splitlines (a ++ b) = (Text.splitlines b).modifyHead (a ++ ·) := by
  induction a with
  | nil =>
    obtain ⟨line, rest, hlines, -⟩ := Text.splitOnP_infix Text.isBreak b
    rw [List.nil_append, Text.splitlines, hlines]
    rfl
  | cons c a ih =>
    have ih := ih fun d hd => h d (List.mem_cons_of_mem _ hd)
    rw [Text.splitlines] at ih
    rw [Text.splitlines, List.cons_append, List.splitOnP_cons_eq_if_modifyHead,
      h c List.mem_cons_self, if_neg Bool.false_ne_true, ih, List.modifyHead_modifyHead]
    rfl

/-- What goes before a text on its first line leaves the others as they are. -/
theorem lines_append_plain {a : Text} (hne : a ≠ []) (h : ∀ c ∈ a, Text.isBreak c = false)
    (b : Text) : ∃ line, Text.lines (a ++ b) =
      (a ++ line) :: (Text.splitlines b).tail.filter (· ≠ []) := by
  obtain ⟨line, rest, hlines, -⟩ := Text.splitOnP_infix Text.isBreak b
  refine ⟨line, ?_⟩
  rw [Text.lines, splitlines_append_plain h, Text.splitlines, hlines, List.modifyHead_cons,
    List.filter_cons_of_pos (by simp [hne]), List.tail_cons]

theorem isLineStart_gutter {gutter : Text} (h : gutter ∈ gutters) (line : Text) :
    isLineStart (gutter ++ '[' :: line) = true := by
  simp only [gutters, List.mem_cons, List.not_mem_nil, or_false] at h
  rcases h with rfl | rfl | rfl | rfl <;> rfl

theorem Led.startsRecord {piece : Text} (h : Led piece) : StartsRecord piece := by
  obtain ⟨gutter, hgutter, rest, rfl⟩ := h
  have hall : gutters.all (fun gutter => (gutter ++ ['[']).all (!Text.isBreak ·)) = true := rfl
  have hplain : ∀ c ∈ gutter ++ ['['], Text.isBreak c = false := fun c hc => by
    simpa using List.all_eq_true.1 (List.all_eq_true.1 hall gutter hgutter) c hc
  obtain ⟨line, hlines⟩ := lines_append_plain (by simp) hplain rest
  rw [List.append_assoc, List.singleton_append, List.append_assoc, List.singleton_append] at hlines
  exact ⟨_, _, hlines, isLineStart_gutter hgutter line⟩

section

variable {alnum : Char → Bool} {fqcn : Text} (hname : IsName alnum fqcn)

/-- The piece opens a record or does not hold the name. -/
def Apart (fqcn piece : Text) : Prop := Led piece ∨ ¬ fqcn <:+: piece

theorem Apart.confined {piece : Text} (h : Apart fqcn piece) : Confined fqcn piece :=
  h.imp_left Led.startsRecord

include hname in
theorem IsName.ne_nil : fqcn ≠ [] := by
  obtain ⟨c, -, hdot⟩ := hname.dotted
  rintro rfl
  exact absurd (List.infix_nil.1 hdot) (List.cons_ne_nil _ _)

include hname in
/-- The beginning of a piece is apart as the piece is. -/
theorem Apart.of_begins {piece whole : Text} (h : Apart fqcn whole) (hbegins : piece <+: whole) :
    Apart fqcn piece := by
  rcases h with ⟨gutter, hgutter, rest, rfl⟩ | h
  · have hopen : gutter ++ ['['] <+: gutter ++ '[' :: rest := ⟨rest, by simp⟩
    rcases List.prefix_or_prefix_of_prefix hbegins hopen with hshort | ⟨rest', rfl⟩
    · rcases List.prefix_concat_iff.1 hshort with rfl | hgutter'
      · exact .inl ⟨gutter, hgutter, [], rfl⟩
      · -- cut in the gutter, where no name has a character
        have hall : gutters.all (·.all fun c => c == ' ' || c == '*') = true := rfl
        have hplain : ∀ c ∈ gutter, inName alnum c = false := by
          intro c hc
          have hchar := List.all_eq_true.1 (List.all_eq_true.1 hall gutter hgutter) c hc
          simp only [Bool.or_eq_true, beq_iff_eq] at hchar
          rcases hchar with rfl | rfl <;> rfl
        refine .inr fun hin => hname.ne_nil (List.eq_nil_iff_forall_not_mem.2 fun c hc => ?_)
        have hmem : c ∈ gutter := hgutter'.subset (hin.subset hc)
        exact absurd (hname.chars c hc) (by rw [hplain c hmem]; decide)
    · exact .inl ⟨gutter, hgutter, rest', by simp⟩
  · exact .inr fun hin => h (hin.trans hbegins.isInfix)

/-! ## Texts that hold no name -/

def dotsLetter : Text → Bool
  | '.' :: c :: _ => c.isLower
  | _ => false

/-- No dot stands before a letter. -/
def bare (s : Text) : Bool := s.tails.all (!dotsLetter ·)

theorem not_infix_dot_of_bare {s : Text} (h : bare s = true) {c : Char} (hc : c.isLower = true) :
    ¬ ['.', c] <:+: s := by
  rintro ⟨before, after, rfl⟩
  have htail : ['.', c] ++ after ∈ (before ++ ['.', c] ++ after).tails := by
    rw [List.mem_tails, List.append_assoc]
    exact List.suffix_append _ _
  have hnot := List.all_eq_true.1 h _ htail
  have hdots : dotsLetter (['.', c] ++ after) = true := hc
  rw [hdots] at hnot
  cases hnot

include hname

theorem IsName.not_infix_bare {s : Text} (h : bare s = true) : ¬ fqcn <:+: s := by
  obtain ⟨c, hc, hdot⟩ := hname.dotted
  exact fun hin => not_infix_dot_of_bare h hc (hdot.trans hin)

theorem IsName.not_infix_ofNat (n : ℕ) : ¬ fqcn <:+: Text.ofNat n := by
  obtain ⟨c, -, hdot⟩ := hname.dotted
  intro hin
  have hmem : '.' ∈ Text.ofNat n := (hdot.trans hin).subset List.mem_cons_self
  exact absurd (Nat.isDigit_of_mem_toDigits (by decide) (by decide) hmem) (by decide)

/-- A character that parts names. -/
def parts (c : Char) : Bool := c ∈ " ():".toList

theorem IsName.not_parts {c : Char} (h : parts c = true) : c ∉ fqcn := by
  intro hmem
  have hchar : c = ' ' ∨ c = '(' ∨ c = ')' ∨ c = ':' := by simpa [parts] using h
  have hnot : inName alnum c = false := by
    rcases hchar with rfl | rfl | rfl | rfl <;> rfl
  rw [hname.chars c hmem] at hnot
  cases hnot

/-- A name that stands in neither of two texts does not stand across the place where they are put
together, if one of them is parted from it there. -/
theorem IsName.not_infix_append {a b : Text} (ha : ¬ fqcn <:+: a) (hb : ¬ fqcn <:+: b)
    (h : a.getLast?.any parts = true ∨ b.head?.any parts = true) : ¬ fqcn <:+: a ++ b := by
  intro hin
  rcases h with h | h
  · obtain ⟨c, hc, hparts⟩ := (Option.any_eq_true _ _).1 h
    obtain ⟨a', rfl⟩ := List.getLast?_eq_some_iff.1 hc
    rw [List.append_assoc, List.singleton_append] at hin
    rcases Text.infix_of_infix_append (hname.not_parts hparts) hin with hin | hin
    · exact ha (hin.trans (List.prefix_append _ _).isInfix)
    · exact hb hin
  · obtain ⟨c, hc, hparts⟩ := (Option.any_eq_true _ _).1 h
    obtain ⟨b', rfl⟩ := List.head?_eq_some_iff.1 hc
    rcases Text.infix_of_infix_append (hname.not_parts hparts) hin with hin | hin
    · exact ha hin
    · exact hb (hin.trans (List.suffix_cons _ _).isInfix)

theorem IsName.not_infix_around {a v b : Text} (ha : bare a = true) (hv : ¬ fqcn <:+: v)
    (hb : bare b = true) (hstart : a.getLast?.any parts = true)
    (hend : b.head?.any parts = true) : ¬ fqcn <:+: a ++ v ++ b :=
  hname.not_infix_append (hname.not_infix_append (hname.not_infix_bare ha) hv (.inl hstart))
    (hname.not_infix_bare hb) (.inr hend)

/-! ## Scaffolding -/

theorem IsName.not_infix_legend {logs : List TraceRecord} {piece : Text}
    (h : piece ∈ contextLegend logs) : ¬ fqcn <:+: piece := by
  unfold contextLegend at h
  split at h
  · rw [List.mem_singleton.1 h]
    exact hname.not_infix_bare (by decide +kernel)
  · cases h

theorem IsName.not_infix_total (total : ℕ) :
    ¬ fqcn <:+: "Total raw logs: ".toList ++ Text.ofNat total :=
  hname.not_infix_append (hname.not_infix_bare rfl) (hname.not_infix_ofNat total)
    (.inl (by decide))

theorem IsName.not_infix_smallEnd {total : ℕ} {piece : Text} (h : piece ∈ smallEnd total) :
    ¬ fqcn <:+: piece := by
  rw [List.mem_singleton.1 h]
  exact hname.not_infix_around rfl (hname.not_infix_ofNat total)
    rfl (by decide) (by decide)

theorem IsName.not_infix_errorEnd {piece : Text} (h : piece ∈ errorEnd) : ¬ fqcn <:+: piece := by
  simp only [errorEnd, List.mem_cons, List.not_mem_nil, or_false] at h
  rcases h with rfl | rfl
  · exact hname.not_infix_bare rfl
  · exact hname.not_infix_bare rfl

theorem IsName.not_infix_decision {assembled : Assembled} {piece : Text}
    (h : piece ∈ decisionHeading assembled ++ decisionSeam assembled) : ¬ fqcn <:+: piece := by
  rcases List.mem_append.1 h with h | h
  · unfold decisionHeading at h
    simp only at h
    split at h
    · rw [List.mem_singleton.1 h]
      exact hname.not_infix_around rfl (hname.not_infix_ofNat _) (by decide)
        (by decide) (by decide)
    · rw [List.mem_singleton.1 h]
      refine hname.not_infix_append (hname.not_infix_append ?_ (hname.not_infix_ofNat _)
        (.inl ?_)) (hname.not_infix_bare rfl) (.inr (by decide))
      · exact hname.not_infix_around rfl (hname.not_infix_ofNat _) (by decide)
          (by decide) (by decide)
      · rw [List.getLast?_append_of_ne_nil _ (by decide)]
        decide
  · unfold decisionSeam at h
    split at h
    · cases h
    · rw [List.mem_singleton.1 h]
      exact hname.not_infix_around (by decide) (hname.not_infix_ofNat _) rfl
        (by decide) (by decide)

section

variable {eventId : Text} (hid : ¬ fqcn <:+: eventId)

include hid

theorem IsName.not_infix_smallHeading {logs : List TraceRecord} {piece : Text}
    (h : piece ∈ smallHeading eventId logs) : ¬ fqcn <:+: piece := by
  rcases List.mem_cons.1 h with rfl | h
  · exact hname.not_infix_around rfl hid (by decide) (by decide) (by decide)
  · exact hname.not_infix_legend h

theorem IsName.not_infix_errorHeading {total : ℕ} {window : List WindowEntry} {piece : Text}
    (h : piece ∈ errorHeading eventId total window) : ¬ fqcn <:+: piece := by
  simp only [errorHeading, List.mem_append, List.mem_cons, List.not_mem_nil, or_false] at h
  rcases h with ((rfl | rfl | rfl) | h) | rfl
  · exact hname.not_infix_around rfl hid (by decide) (by decide) (by decide)
  · exact hname.not_infix_total total
  · exact hname.not_infix_around rfl (hname.not_infix_ofNat _)
      rfl (by decide) (by decide)
  · exact hname.not_infix_legend h
  · exact hname.not_infix_bare rfl

theorem IsName.not_infix_normal {total : ℕ} {assembled : Assembled} {piece : Text}
    (h : piece ∈ normalHeading eventId total assembled) : ¬ fqcn <:+: piece := by
  simp only [normalHeading, List.mem_cons, List.not_mem_nil, or_false] at h
  rcases h with rfl | rfl | rfl | rfl | rfl
  · exact hname.not_infix_around rfl hid (by decide) (by decide) (by decide)
  · exact hname.not_infix_total total
  · exact hname.not_infix_around (by decide) (hname.not_infix_ofNat _) rfl
      (by decide) (by decide)
  · exact hname.not_infix_bare rfl
  · exact hname.not_infix_bare rfl

end

end

/-! ## The banner -/

section

variable {alnum : Char → Bool} {fqcn : Text} (hname : IsName alnum fqcn)

include hname

theorem IsName.not_infix_joinLines {pieces : List Text} (h : ∀ piece ∈ pieces, ¬ fqcn <:+: piece) :
    ¬ fqcn <:+: joinLines pieces := by
  have hbreak : '\n' ∉ fqcn := fun hmem => absurd (hname.chars _ hmem) Bool.false_ne_true
  rw [Text.infix_joinLines hname.ne_nil hbreak]
  rintro ⟨piece, hpiece, hin⟩
  exact h piece hpiece hin

theorem IsName.not_infix_joinSome {pieces : List Text} (h : ∀ piece ∈ pieces, ¬ fqcn <:+: piece) :
    ¬ fqcn <:+: joinSome pieces :=
  hname.not_infix_joinLines fun piece hpiece => h piece (List.mem_filter.1 hpiece).1

theorem IsName.not_infix_renderBanner {gaps : List EvidenceGap}
    (h : ∀ gap ∈ gaps, ¬ fqcn <:+: gap.detail) : ¬ fqcn <:+: renderBanner gaps := by
  unfold renderBanner
  split
  · exact hname.not_infix_bare rfl
  · refine hname.not_infix_joinLines fun piece hpiece => ?_
    simp only [List.mem_cons, List.mem_append, List.mem_map, List.not_mem_nil, or_false] at hpiece
    rcases hpiece with (rfl | ⟨gap, hgap, rfl⟩) | rfl
    · exact hname.not_infix_bare rfl
    · refine hname.not_infix_append (hname.not_infix_bare ?_) (h gap hgap) (.inl ?_)
      · cases gap.gapType <;> decide
      · cases gap.gapType <;> decide
    · exact hname.not_infix_bare (by decide)

theorem IsName.not_infix_noiseBanner {report : NoiseReport} (total : ℕ)
    (h : ¬ fqcn <:+: report.minLevel) : ¬ fqcn <:+: noiseBanner report total := by
  have hdropped : ∀ piece ∈ droppedNote report total, ¬ fqcn <:+: piece := by
    intro piece hpiece
    unfold droppedNote at hpiece
    split at hpiece
    · cases hpiece
    · rw [List.mem_singleton.1 hpiece]
      have hcount : ¬ fqcn <:+: Text.ofNat report.droppedBelowLevel ++ " of ".toList :=
        hname.not_infix_append (hname.not_infix_ofNat _) (hname.not_infix_bare (by decide))
          (.inr (by decide))
      have htotal : ¬ fqcn <:+: Text.ofNat report.droppedBelowLevel ++ " of ".toList ++
          Text.ofNat total := by
        refine hname.not_infix_append hcount (hname.not_infix_ofNat _) (.inl ?_)
        rw [List.getLast?_append_of_ne_nil _ (by decide)]
        decide
      have hbelow := hname.not_infix_append htotal
        (hname.not_infix_bare (s := " lines below ".toList) (by decide)) (.inr (by decide))
      refine hname.not_infix_append (hname.not_infix_append hbelow h (.inl ?_))
        (hname.not_infix_bare rfl) (.inr (by decide))
      rw [List.getLast?_append_of_ne_nil _ (by decide)]
      decide
  have hcollapsed : ∀ piece ∈ collapsedNote report, ¬ fqcn <:+: piece := by
    intro piece hpiece
    unfold collapsedNote at hpiece
    split at hpiece
    · cases hpiece
    · rw [List.mem_singleton.1 hpiece]
      exact hname.not_infix_append (hname.not_infix_ofNat _)
        (hname.not_infix_bare (by decide +kernel)) (.inr (by decide +kernel))
  unfold noiseBanner
  simp only
  split
  · exact hname.not_infix_bare rfl
  · refine hname.not_infix_append (hname.not_infix_bare (by decide)) ?_ (.inl (by decide))
    rw [Text.infix_intercalate hname.ne_nil (hname.not_parts (by decide))]
    rintro ⟨piece, hpiece, hin⟩
    rcases List.mem_append.1 hpiece with hpiece | hpiece
    · exact hdropped piece hpiece hin
    · exact hcollapsed piece hpiece hin

theorem IsName.not_infix_notice (omitted : ℕ) : ¬ fqcn <:+: omittedNotice omitted :=
  hname.not_infix_around (by decide) (hname.not_infix_ofNat omitted) rfl
    (by decide) rfl

end

/-! ## The paths -/

/-- The path that the records of a trace take. -/
inductive Path where
  | small (logs : List TraceRecord)
  | error (window : List WindowEntry)
  | normal (assembled : Assembled)

namespace Path

def lines (eventId : Text) (total : ℕ) : Path → List Text
  | small logs => smallLines eventId total logs
  | error window => errorLines eventId total window
  | normal assembled => normalLines eventId total assembled

/-- What is shown of the records: the line of a record, with its note on the ERROR path, or the
lines of a cluster. -/
def entries : Path → List Text
  | small logs => logs.map recordLine
  | error window => window.map fun entry => joinLines (entryLines entry)
  | normal assembled =>
    assembled.boundaryLines.map plainLine ++ assembled.decisionVocabularyLines.map plainLine ++
      assembled.clusters.map fun cluster => joinLines cluster.lines

/-- The pieces of the trace. -/
def units (eventId : Text) (total : ℕ) : Path → List Text
  | small logs => smallLines eventId total logs
  | error window => errorHeading eventId total window ++
      window.map (fun entry => joinLines (entryLines entry)) ++ errorEnd
  | normal assembled => normalHeading eventId total assembled ++ boundarySection assembled ++
      decisionSection assembled ++ clusterHeading ++
      assembled.clusters.map (fun cluster => joinLines cluster.lines) ++ normalEnd

theorem joinLines_units (eventId : Text) (total : ℕ) (path : Path) :
    joinLines (path.units eventId total) = joinLines (path.lines eventId total) := by
  cases path with
  | small logs => rfl
  | error window => exact (Text.joinLines_regroup fun _ _ => List.cons_ne_nil _ _).symm
  | normal assembled => exact (Text.joinLines_regroup fun _ _ => List.cons_ne_nil _ _).symm

theorem units_ne_nil (eventId : Text) (total : ℕ) (path : Path) :
    path.units eventId total ≠ [] := by
  cases path <;> simp [units, smallLines, smallEnd, errorEnd, normalEnd]

/-- Each path ends its trace with a ruled line. -/
theorem exists_dash (eventId : Text) (total : ℕ) (path : Path) :
    ∃ unit ∈ path.units eventId total, '-' ∈ unit := by
  cases path with
  | small logs =>
    refine ⟨_, List.mem_append_right _ List.mem_cons_self, ?_⟩
    exact List.mem_append_left _ (List.mem_append_left _ (by decide))
  | error window =>
    exact ⟨_, List.mem_append_right _ (List.mem_cons_of_mem _ List.mem_cons_self), by decide⟩
  | normal assembled => exact ⟨_, List.mem_append_right _ List.mem_cons_self, by decide⟩

theorem led_joinLines (gutter : Text) (h : gutter ∈ gutters) (rest : Text) (more : List Text) :
    Led (joinLines ((gutter ++ '[' :: rest) :: more)) := by
  cases more with
  | nil => exact ⟨gutter, h, rest, Text.joinLines_singleton _⟩
  | cons line more =>
    refine ⟨gutter, h, rest ++ '\n' :: joinLines (line :: more), ?_⟩
    rw [Text.joinLines_cons_cons, List.append_assoc, List.cons_append]

theorem led_of_mem_entries {path : Path} {entry : Text} (h : entry ∈ path.entries) : Led entry := by
  have hplain (record : TraceRecord) : Led (plainLine record) :=
    ⟨"  ".toList, by decide, _, rfl⟩
  cases path with
  | small logs =>
    obtain ⟨record, -, rfl⟩ := List.mem_map.1 h
    exact ⟨[], by decide, _, rfl⟩
  | error window =>
    obtain ⟨entry, -, rfl⟩ := List.mem_map.1 h
    have hgutter : gutter entry.record ∈ gutters := by
      unfold gutter
      split <;> decide
    exact led_joinLines _ hgutter _ _
  | normal assembled =>
    rcases List.mem_append.1 h with h | h
    · rcases List.mem_append.1 h with h | h
      · obtain ⟨record, -, rfl⟩ := List.mem_map.1 h
        exact hplain record
      · obtain ⟨record, -, rfl⟩ := List.mem_map.1 h
        exact hplain record
    · obtain ⟨cluster, -, rfl⟩ := List.mem_map.1 h
      exact led_joinLines "  ".toList (by decide) _ _

theorem mem_boundarySection {assembled : Assembled} {piece : Text} :
    piece ∈ boundarySection assembled → piece ∈ assembled.boundaryLines.map plainLine ∨
      piece ∈ boundaryHeading ++ [[]] := by
  unfold boundarySection
  split
  · exact nofun
  · simp only [List.mem_append]
    tauto

theorem mem_decisionSection {assembled : Assembled} {piece : Text} :
    piece ∈ decisionSection assembled →
      piece ∈ assembled.decisionVocabularyLines.map plainLine ∨
      piece ∈ decisionHeading assembled ++ decisionSeam assembled ∨ piece = [] := by
  unfold decisionSection
  split
  · exact nofun
  · intro h
    simp only [List.mem_append, List.mem_singleton] at h
    rcases h with (((h | h) | h) | h) | h
    · exact .inr (.inl (List.mem_append_left _ h))
    · exact .inl (List.map_subset _ (List.take_subset _ _) h)
    · exact .inr (.inl (List.mem_append_right _ h))
    · exact .inl (List.map_subset _ (List.drop_subset _ _) h)
    · exact .inr (.inr h)

theorem map_plainLine_subset (assembled : Assembled) :
    assembled.boundaryLines.map plainLine ⊆ boundarySection assembled ∧
      assembled.decisionVocabularyLines.map plainLine ⊆ decisionSection assembled := by
  constructor
  · unfold boundarySection
    split
    · next hnil => simp [hnil]
    · exact fun piece hpiece => List.mem_append_left _ (List.mem_append_right _ hpiece)
  · unfold decisionSection
    split
    · next hnil => simp [hnil]
    · intro piece hpiece
      rw [← List.take_append_drop assembled.half assembled.decisionVocabularyLines,
        List.map_append] at hpiece
      simp only [List.mem_append] at hpiece ⊢
      tauto

theorem mem_units_of_mem_entries {eventId : Text} {total : ℕ} {path : Path} {entry : Text}
    (h : entry ∈ path.entries) : entry ∈ path.units eventId total := by
  cases path with
  | small logs => exact List.mem_append_left _ (List.mem_append_right _ h)
  | error window => exact List.mem_append_left _ (List.mem_append_right _ h)
  | normal assembled =>
    obtain ⟨hboundary, hdecision⟩ := map_plainLine_subset assembled
    simp only [entries, units, List.mem_append] at h ⊢
    rcases h with (h | h) | h
    · have hmem := hboundary h
      tauto
    · have hmem := hdecision h
      tauto
    · tauto

/-- What is no entry is scaffolding. -/
theorem entry_or_not_infix {alnum : Char → Bool} {fqcn : Text} (hname : IsName alnum fqcn)
    {eventId : Text} (hid : ¬ fqcn <:+: eventId) {total : ℕ} {path : Path} {unit : Text}
    (h : unit ∈ path.units eventId total) : unit ∈ path.entries ∨ ¬ fqcn <:+: unit := by
  cases path with
  | small logs =>
    simp only [units, smallLines, List.mem_append] at h
    rcases h with (h | h) | h
    · exact .inr (hname.not_infix_smallHeading hid h)
    · exact .inl h
    · exact .inr (hname.not_infix_smallEnd h)
  | error window =>
    simp only [units, List.mem_append] at h
    rcases h with (h | h) | h
    · exact .inr (hname.not_infix_errorHeading hid h)
    · exact .inl h
    · exact .inr (hname.not_infix_errorEnd h)
  | normal assembled =>
    have hempty : ¬ fqcn <:+: [] := hname.not_infix_bare rfl
    simp only [units, List.mem_append] at h
    rcases h with ((((h | h) | h) | h) | h) | h
    · exact .inr (hname.not_infix_normal hid h)
    · rcases mem_boundarySection h with h | h
      · exact .inl (List.mem_append_left _ (List.mem_append_left _ h))
      · simp only [boundaryHeading, List.mem_append, List.mem_singleton] at h
        rcases h with rfl | rfl
        · exact .inr (hname.not_infix_bare (by decide))
        · exact .inr hempty
    · rcases mem_decisionSection h with h | h | rfl
      · exact .inl (List.mem_append_left _ (List.mem_append_right _ h))
      · exact .inr (hname.not_infix_decision h)
      · exact .inr hempty
    · rw [List.mem_singleton.1 h]
      exact .inr (hname.not_infix_bare rfl)
    · exact .inl (List.mem_append_right _ h)
    · rw [List.mem_singleton.1 h]
      exact .inr (hname.not_infix_bare rfl)

end Path

/-! ## The cut -/

theorem joinLines_cut {l l' : List Text} (h : l ≠ []) (h' : l' ≠ []) (notice : Text) :
    joinLines (l ++ [[], notice, []] ++ l') =
      joinLines l ++ ("\n\n".toList ++ notice ++ "\n\n".toList) ++ joinLines l' := by
  have hmiddle : joinLines ([[], notice, []] ++ l') =
      '\n' :: (notice ++ "\n\n".toList ++ joinLines l') := by
    rw [List.cons_append, Text.joinLines_cons (by simp), List.cons_append,
      Text.joinLines_cons (by simp), List.singleton_append, Text.joinLines_cons h']
    simp
  rw [List.append_assoc, Text.joinLines_append h (by simp), hmiddle]
  simp

/-- **A text that is cut is joined from the pieces above the cut, the notice, and the pieces below
it.** -/
theorem boundTotalSize_cut {limit : ℤ} {units : List Text} (hne : units ≠ [])
    (h : limit < (joinLines units).length) : boundTotalSize limit (joinLines units) = joinLines
      (Text.piecesBefore (keep limit (joinLines units)) units ++
        [[], omittedNotice (excess limit (joinLines units)), []] ++
        Text.piecesAfter (tailStart limit (joinLines units)) units) := by
  rw [joinLines_cut (Text.piecesBefore_ne_nil hne _) (Text.piecesAfter_ne_nil hne _),
    Text.joinLines_before, Text.joinLines_after, boundTotalSize, if_neg (not_le.2 h), seam]

end ResidentCrm.Dlt.Corroborate
