import ResidentCrm.Logs.Streaming

/-!
# The lines of the fixtures

The reader of a fixture's text against the log that the text is: it splits at every line boundary of
`str.splitlines` and counts a byte for each, and the line that reaches the cap is whole. Its lines
are those of the log up to the cap where there are no other boundaries than line feeds and the cap
cuts no line (`fixture_iff`).
-/

namespace ResidentCrm.Logs

open Text Utf8

/-- The lines of a text that are read with so many bytes left. -/
def fixtureLines : (budget : ℕ) → List Text → List Text
  | _, [] => []
  | budget, line :: lines =>
    line :: if budget ≤ utf8Length line + 1 then []
      else fixtureLines (budget - (utf8Length line + 1)) lines

theorem map_line_iterText (maxBytes : ℕ) (lines : List Text) (total : ℕ) :
    (iterLinesFromText maxBytes total lines).map Item.line =
      fixtureLines (maxBytes - total) lines := by
  induction lines generalizing total with
  | nil => rfl
  | cons line lines ih =>
    have hcap : maxBytes ≤ total + utf8Length line + 1 ↔
        maxBytes - total ≤ utf8Length line + 1 := by omega
    have hleft : maxBytes - (total + utf8Length line + 1) =
        maxBytes - total - (utf8Length line + 1) := by omega
    simp only [iterLinesFromText, fixtureLines, hcap]
    split
    · rfl
    · rw [List.map_cons, ih, hleft]

/-- The cap comes after no boundary but line feeds, and between lines. -/
structure CutsNoLine (maxBytes : ℕ) (text : Text) : Prop where
  some_read : text = [] ∨ 0 < maxBytes
  feeds : ∀ c ∈ cut maxBytes text, isBreak c = true → c = '\n'
  whole : ∃ rest, text = cut maxBytes text ++ rest ∧
    (rest = [] ∨ (∃ c ∈ rest.head?, isBreak c = true) ∨
      (cut maxBytes text).getLast? = some '\n')

/-! ## Lines of a text -/

theorem linesFrom_feeds (s : Text) : ∀ {line : Text}, (∀ c ∈ line, isBreak c = false) →
    ∀ l ∈ linesFrom line s, ∀ c ∈ l, isBreak c = false := by
  intro line hline l hl
  fun_induction linesFrom line s with
  | case1 => cases hl
  | case2 line hne => exact List.mem_singleton.1 hl ▸ hline
  | case3 line s ih =>
    rcases List.mem_cons.1 hl with rfl | hl
    · exact hline
    · exact ih (fun c hc => nomatch hc) hl
  | case4 line c s hreturn hbreak ih =>
    rcases List.mem_cons.1 hl with rfl | hl
    · exact hline
    · exact ih (fun c hc => nomatch hc) hl
  | case5 line c s hreturn hbreak ih =>
    refine ih (fun d hd => ?_) hl
    rcases List.mem_append.1 hd with hd | hd
    · exact hline d hd
    · rw [List.mem_singleton.1 hd]
      simpa using hbreak

theorem linesOf_line {line : Text} (h : ∀ c ∈ line, isBreak c = false) :
    linesOf line = if line = [] then [] else [line] := by
  have hlines := linesFrom_append h [] []
  rw [List.append_nil, List.nil_append] at hlines
  rw [linesOf, hlines, linesFrom]

/-- The first line of a text, and the others. -/
theorem linesOf_break {line : Text} (h : ∀ c ∈ line, isBreak c = false) {b : Char}
    (hb : isBreak b = true) (text : Text) :
    ∃ later, linesOf (line ++ b :: text) = line :: later ∧
      (b = '\n' → later = linesOf text) := by
  rw [linesOf, linesFrom_append h, List.nil_append]
  by_cases hreturn : b = '\r'
  · subst hreturn
    obtain ⟨later, hlater⟩ : ∃ later, linesFrom line ('\r' :: text) = line :: later := by
      by_cases hpair : ∃ s, text = '\n' :: s
      · obtain ⟨s, rfl⟩ := hpair
        exact ⟨linesFrom [] s, by rw [linesFrom]⟩
      · refine ⟨linesFrom [] text, ?_⟩
        rw [linesFrom]
        · rw [if_pos hb]
        · exact fun s _ hs => hpair ⟨s, hs⟩
    exact ⟨later, hlater, fun hfeed => absurd hfeed (by decide)⟩
  · exact ⟨linesFrom [] text, linesFrom_break hb hreturn line text, fun _ => rfl⟩

/-- A text begins with a line, which ends at a boundary or with the text. -/
theorem exists_line (text : Text) :
    ∃ line rest, text = line ++ rest ∧ (∀ c ∈ line, isBreak c = false) ∧
      ∀ c ∈ rest.head?, isBreak c = true := by
  refine ⟨text.takeWhile (!isBreak ·), text.dropWhile (!isBreak ·),
    (List.takeWhile_append_dropWhile ..).symm, fun c hc => ?_, fun c hc => ?_⟩
  · simpa using List.mem_takeWhile_imp hc
  · have hnot := List.head?_dropWhile_not (fun c => !isBreak c) text
    rw [Option.mem_def.1 hc] at hnot
    simpa using hnot

/-! ## Cut texts -/

theorem cut_zero (text : Text) : cut 0 text = [] := by
  cases text with
  | nil => rfl
  | cons c text => rw [cut, if_pos rfl]

theorem utf8Length_cons (c : Char) (text : Text) :
    utf8Length (c :: text) = c.utf8Size + utf8Length text := rfl

theorem cut_append_of_le {text : Text} {n : ℕ} (h : utf8Length text ≤ n) (more : Text) :
    cut n (text ++ more) = text ++ cut (n - utf8Length text) more := by
  induction text generalizing n with
  | nil => rfl
  | cons c text ih =>
    have hpos := c.utf8Size_pos
    rw [utf8Length_cons] at h
    rw [List.cons_append, cut, if_neg (by omega), if_pos (by omega), ih (by omega),
      utf8Length_cons, Nat.sub_sub, List.cons_append]

theorem cut_append_of_ge {text : Text} {n : ℕ} (h : n ≤ utf8Length text) (more : Text) :
    cut n (text ++ more) = cut n text := by
  induction text generalizing n with
  | nil =>
    rw [Nat.le_zero.1 h, cut_zero, cut_zero]
  | cons c text ih =>
    rw [utf8Length_cons] at h
    rw [List.cons_append, cut, cut, ih (by omega)]

theorem cut_of_le {text : Text} {n : ℕ} (h : utf8Length text ≤ n) : cut n text = text := by
  have hcut := cut_append_of_le h []
  rw [List.append_nil, cut, List.append_nil] at hcut
  exact hcut

theorem mem_cut {text : Text} {n : ℕ} {c : Char} (h : c ∈ cut n text) :
    c ∈ text ∨ c = replacement := by
  induction text generalizing n with
  | nil => cases h
  | cons d text ih =>
    rw [cut] at h
    split at h
    · cases h
    split at h
    · rcases List.mem_cons.1 h with rfl | h
      · exact .inl List.mem_cons_self
      · exact (ih h).imp_left (List.mem_cons_of_mem _)
    · exact .inr (List.mem_singleton.1 h)

theorem length_cut_le (text : Text) (n : ℕ) : (cut n text).length ≤ text.length := by
  induction text generalizing n with
  | nil => exact le_refl 0
  | cons c text ih =>
    rw [cut]
    split
    · exact Nat.zero_le _
    split
    · exact Nat.succ_le_succ (ih _)
    · exact Nat.succ_le_succ (Nat.zero_le _)

theorem cut_ne_nil {text : Text} {n : ℕ} (hn : n ≠ 0) (h : text ≠ []) : cut n text ≠ [] := by
  obtain ⟨c, text, rfl⟩ := List.exists_cons_of_ne_nil h
  rw [cut, if_neg hn]
  split <;> exact List.cons_ne_nil _ _

/-! ## The lines of the fixtures -/

theorem replacement_plain : isBreak replacement = false := by decide

theorem plain_cut {line : Text} (h : ∀ c ∈ line, isBreak c = false) (n : ℕ) :
    ∀ c ∈ cut n line, isBreak c = false := by
  intro c hc
  rcases mem_cut hc with hc | rfl
  · exact h c hc
  · exact replacement_plain

theorem no_feed {line : Text} (h : ∀ c ∈ line, isBreak c = false) : '\n' ∉ line := fun hmem =>
  absurd (h _ hmem) (by decide)

/-- What a text has of characters but line feeds is in its lines. -/
theorem exists_logLines {text : Text} {c : Char} (h : c ∈ text) (hc : c ≠ '\n') :
    ∃ line ∈ logLines text, c ∈ line := by
  have hmem : c ∈ terminated text := by
    rw [terminated]
    split
    · exact h
    · exact List.mem_append_left _ h
  rw [terminated_eq, ended, List.mem_flatMap] at hmem
  obtain ⟨line, hline, hmem⟩ := hmem
  rcases List.mem_append.1 hmem with hmem | hmem
  · exact ⟨line, hline, hmem⟩
  · exact absurd (List.mem_singleton.1 hmem) hc

theorem fixtureLines_subset {budget : ℕ} {lines : List Text} :
    ∀ l ∈ fixtureLines budget lines, l ∈ lines := by
  induction lines generalizing budget with
  | nil => exact fun l hl => nomatch hl
  | cons line lines ih =>
    intro l hl
    rw [fixtureLines] at hl
    rcases List.mem_cons.1 hl with rfl | hl
    · exact List.mem_cons_self
    · split at hl
      · cases hl
      · exact List.mem_cons_of_mem _ (ih l hl)

section

variable {line rest : Text} {budget : ℕ} (hline : ∀ c ∈ line, isBreak c = false)
  (hrest : ∀ c ∈ rest.head?, isBreak c = true)

include hline hrest

/-- The cap is in the first line. -/
theorem fixtureLines_iff_of_le (hpos : 0 < budget) (hcap : budget ≤ utf8Length line) :
    fixtureLines budget (linesOf (line ++ rest)) = logLines (cut budget (line ++ rest)) ↔
      CutsNoLine budget (line ++ rest) := by
  have hne : line ≠ [] := by
    rintro rfl
    exact absurd hcap (Nat.not_le.2 hpos)
  have hcut : cut budget (line ++ rest) = cut budget line := cut_append_of_ge hcap rest
  have hcut_ne : cut budget line ≠ [] := cut_ne_nil hpos.ne' hne
  have hplain := plain_cut hline budget
  obtain ⟨later, hlater⟩ : ∃ later, linesOf (line ++ rest) = line :: later := by
    cases rest with
    | nil => exact ⟨[], by rw [List.append_nil, linesOf_line hline, if_neg hne]⟩
    | cons b text =>
      obtain ⟨later, hlater, -⟩ := linesOf_break hline (hrest b rfl) text
      exact ⟨later, hlater⟩
  rw [hlater, fixtureLines, if_pos (by omega), hcut, logLines_begun (no_feed hplain),
    if_neg hcut_ne, List.cons.injEq]
  constructor
  · rintro ⟨hwhole, -⟩
    refine ⟨.inr hpos, fun c hc hbreak => ?_, rest, ?_, ?_⟩
    · rw [hcut] at hc
      rw [hplain c hc] at hbreak
      cases hbreak
    · rw [hcut, ← hwhole]
    · cases rest with
      | nil => exact .inl rfl
      | cons b text => exact .inr (.inl ⟨b, rfl, hrest b rfl⟩)
  · rintro ⟨-, -, after, hafter, hends⟩
    rw [hcut] at hafter hends
    refine ⟨?_, rfl⟩
    obtain ⟨missing, hmissing⟩ : cut budget line <+: line :=
      List.prefix_of_prefix_length_le ⟨after, hafter.symm⟩ (List.prefix_append _ _)
        (length_cut_le _ _)
    have hboth : cut budget line ++ (missing ++ rest) = cut budget line ++ after := by
      rw [← List.append_assoc, hmissing, hafter]
    have hsplit := List.append_cancel_left hboth
    cases missing with
    | nil =>
      rw [List.append_nil] at hmissing
      exact hmissing.symm
    | cons c missing =>
      have hc : isBreak c = false := hline c (hmissing ▸ by simp)
      rw [← hsplit] at hends
      rcases hends with hnil | ⟨d, hd, hbreak⟩ | hlast
      · cases hnil
      · obtain rfl := Option.some.inj hd
        rw [hc] at hbreak
        cases hbreak
      · exact absurd (List.mem_of_getLast? hlast) (no_feed hplain)

end

/-- A boundary that is no line feed is read: the text is split there, and the log is not. -/
theorem fixtureLines_ne_of_mem {text : Text} {budget : ℕ} {b : Char} (hb : isBreak b = true)
    (hfeed : b ≠ '\n') (hmem : b ∈ cut budget text) :
    fixtureLines budget (linesOf text) ≠ logLines (cut budget text) := by
  intro h
  obtain ⟨l, hl, hbl⟩ := exists_logLines hmem hfeed
  rw [← h] at hl
  have hplain := linesFrom_feeds text (List.forall_mem_nil _) l (fixtureLines_subset l hl) b hbl
  rw [hb] at hplain
  cases hplain

theorem utf8Size_feed : Char.utf8Size '\n' = 1 := by decide

/-- A line that the cap comes after. -/
theorem cut_feed {line : Text} {budget : ℕ} (hcap : ¬budget ≤ utf8Length line) (text : Text) :
    cut budget (line ++ '\n' :: text) =
      line ++ '\n' :: cut (budget - (utf8Length line + 1)) text := by
  rw [cut_append_of_le (Nat.le_of_not_ge hcap), cut, if_neg (by omega), utf8Size_feed,
    if_pos (by omega), Nat.sub_sub]

theorem cutsNoLine_feed {line : Text} (hline : ∀ c ∈ line, isBreak c = false) {budget : ℕ}
    (hcap : ¬budget ≤ utf8Length line + 1) (text : Text) :
    CutsNoLine budget (line ++ '\n' :: text) ↔
      CutsNoLine (budget - (utf8Length line + 1)) text := by
  have hcut : cut budget (line ++ '\n' :: text) =
      line ++ '\n' :: cut (budget - (utf8Length line + 1)) text := cut_feed (by omega) text
  have hleft : budget - (utf8Length line + 1) ≠ 0 := by omega
  have hwhole : ∀ after, line ++ '\n' :: text = cut budget (line ++ '\n' :: text) ++ after ↔
      text = cut (budget - (utf8Length line + 1)) text ++ after := fun after => by
    rw [hcut, List.append_assoc, List.append_cancel_left_eq, List.cons_append, List.cons.injEq]
    exact and_iff_right rfl
  have hlast : cut (budget - (utf8Length line + 1)) text ≠ [] →
      (cut budget (line ++ '\n' :: text)).getLast? =
        (cut (budget - (utf8Length line + 1)) text).getLast? := fun hne => by
    rw [hcut, List.append_cons, List.getLast?_append_of_ne_nil _ hne]
  constructor
  · rintro ⟨-, hfeeds, after, hafter, hends⟩
    have hafter := (hwhole after).1 hafter
    refine ⟨.inr (Nat.pos_of_ne_zero hleft), fun c hc => hfeeds c ?_, after, hafter, ?_⟩
    · rw [hcut]
      exact List.mem_append_right _ (List.mem_cons_of_mem _ hc)
    · by_cases hne : cut (budget - (utf8Length line + 1)) text = []
      · have htext : text = [] := by
          by_contra htext
          exact cut_ne_nil hleft htext hne
        rw [hne, htext] at hafter
        exact .inl hafter.symm
      · exact hlast hne ▸ hends
  · rintro ⟨-, hfeeds, after, hafter, hends⟩
    refine ⟨.inr (by omega), fun c hc hbreak => ?_, after, (hwhole after).2 hafter, ?_⟩
    · rw [hcut] at hc
      rcases List.mem_append.1 hc with hc | hc
      · rw [hline c hc] at hbreak
        cases hbreak
      · rcases List.mem_cons.1 hc with rfl | hc
        · rfl
        · exact hfeeds c hc hbreak
    · by_cases hne : cut (budget - (utf8Length line + 1)) text = []
      · rw [hcut, hne]
        exact .inr (.inr List.getLast?_concat)
      · exact (hlast hne).symm ▸ hends

theorem linesOf_ne_nil {text : Text} (h : text ≠ []) : linesOf text ≠ [] := by
  obtain ⟨line, rest, rfl, hline, hrest⟩ := exists_line text
  cases rest with
  | nil =>
    rw [List.append_nil] at h ⊢
    rw [linesOf_line hline, if_neg h]
    exact List.cons_ne_nil _ _
  | cons b text =>
    obtain ⟨later, hlater, -⟩ := linesOf_break hline (hrest b rfl) text
    rw [hlater]
    exact List.cons_ne_nil _ _

/-- With no bytes allowed the first line is read all the same. -/
theorem fixtureLines_zero_iff (text : Text) :
    fixtureLines 0 (linesOf text) = logLines (cut 0 text) ↔ CutsNoLine 0 text := by
  have hnone : logLines [] = [] := rfl
  rw [cut_zero, hnone]
  by_cases htext : text = []
  · subst htext
    exact iff_of_true rfl ⟨.inl rfl, fun c hc => absurd hc List.not_mem_nil, [], rfl, .inl rfl⟩
  · obtain ⟨line, lines, hlines⟩ := List.exists_cons_of_ne_nil (linesOf_ne_nil htext)
    rw [hlines]
    exact iff_of_false (List.cons_ne_nil _ _) fun h =>
      h.some_read.elim htext (lt_irrefl 0)

/-- The cap is after a line that no boundary follows. -/
theorem fixtureLines_iff_of_whole {line : Text} (hline : ∀ c ∈ line, isBreak c = false)
    {budget : ℕ} (hpos : 0 < budget) (hcap : ¬budget ≤ utf8Length line) :
    fixtureLines budget (linesOf line) = logLines (cut budget line) ↔ CutsNoLine budget line := by
  have hwhole : cut budget line = line := cut_of_le (Nat.le_of_not_ge hcap)
  rw [linesOf_line hline, hwhole, logLines_begun (no_feed hline)]
  refine iff_of_true ?_ ⟨.inr hpos, fun c hc hbreak => ?_, [], ?_, .inl rfl⟩
  · split
    · rfl
    · rw [fixtureLines]
      split <;> rfl
  · rw [hwhole] at hc
    rw [hline c hc] at hbreak
    cases hbreak
  · rw [hwhole, List.append_nil]

/-- The cap is right after a line and its line feed. -/
theorem cutsNoLine_of_feed {line : Text} (hline : ∀ c ∈ line, isBreak c = false) {budget : ℕ}
    (hpos : 0 < budget) (hcap : ¬budget ≤ utf8Length line) (hlast : budget ≤ utf8Length line + 1)
    (text : Text) : CutsNoLine budget (line ++ '\n' :: text) := by
  have hleft : budget - (utf8Length line + 1) = 0 := by omega
  have hcut := cut_feed hcap text
  rw [hleft, cut_zero] at hcut
  refine ⟨.inr hpos, fun c hc hbreak => ?_, text, ?_, ?_⟩
  · rw [hcut] at hc
    rcases List.mem_append.1 hc with hc | hc
    · rw [hline c hc] at hbreak
      cases hbreak
    · exact List.mem_singleton.1 hc
  · rw [hcut, List.append_assoc]
    rfl
  · rw [hcut]
    exact .inr (.inr List.getLast?_concat)

/-- The cap is after a line that a boundary follows which is no line feed: the boundary is read and
splits the text, or it is cut and read as a replacement. -/
theorem fixtureLines_iff_of_other {line : Text} (hline : ∀ c ∈ line, isBreak c = false) {b : Char}
    (hb : isBreak b = true) (hfeed : b ≠ '\n') {budget : ℕ} (hcap : ¬budget ≤ utf8Length line)
    (text : Text) :
    fixtureLines budget (linesOf (line ++ b :: text)) = logLines (cut budget (line ++ b :: text)) ↔
      CutsNoLine budget (line ++ b :: text) := by
  have hcut : cut budget (line ++ b :: text) =
      line ++ cut (budget - utf8Length line) (b :: text) :=
    cut_append_of_le (Nat.le_of_not_ge hcap) _
  by_cases hfits : b.utf8Size ≤ budget - utf8Length line
  · have hmem : b ∈ cut budget (line ++ b :: text) := by
      rw [hcut, cut, if_neg (by omega), if_pos hfits]
      exact List.mem_append_right _ List.mem_cons_self
    exact iff_of_false (fixtureLines_ne_of_mem hb hfeed hmem) fun h =>
      hfeed (h.feeds b hmem hb)
  · rw [cut, if_neg (by omega), if_neg hfits] at hcut
    obtain ⟨later, hlater, -⟩ := linesOf_break hline hb text
    have hplain : ∀ c ∈ line ++ [replacement], isBreak c = false := fun c hc => by
      rcases List.mem_append.1 hc with hc | hc
      · exact hline c hc
      · exact List.mem_singleton.1 hc ▸ replacement_plain
    have hne : line ++ [replacement] ≠ [] :=
      List.append_ne_nil_of_right_ne_nil _ (List.cons_ne_nil _ _)
    refine iff_of_false (fun h => ?_) fun h => ?_
    · rw [hlater, fixtureLines, hcut, logLines_begun (no_feed hplain), if_neg hne] at h
      simpa using congrArg List.length (List.cons.inj h).1
    · obtain ⟨after, hafter, -⟩ := h.whole
      rw [hcut, List.append_assoc] at hafter
      have hsame := (List.cons.inj (List.append_cancel_left hafter)).1
      rw [hsame, replacement_plain] at hb
      cases hb

/-- **The lines of a fixture** are those of the log up to the cap where the cap comes after no other
boundaries than line feeds, and between lines. -/
theorem fixtureLines_iff (text : Text) (budget : ℕ) :
    fixtureLines budget (linesOf text) = logLines (cut budget text) ↔ CutsNoLine budget text := by
  induction hlength : text.length using Nat.strong_induction_on generalizing text budget with
  | _ length ih =>
  rcases Nat.eq_zero_or_pos budget with rfl | hpos
  · exact fixtureLines_zero_iff text
  obtain ⟨line, rest, rfl, hline, hrest⟩ := exists_line text
  by_cases hcap : budget ≤ utf8Length line
  · exact fixtureLines_iff_of_le hline hrest hpos hcap
  cases rest with
  | nil =>
    rw [List.append_nil]
    exact fixtureLines_iff_of_whole hline hpos hcap
  | cons b text =>
    have hb : isBreak b = true := hrest b rfl
    by_cases hfeed : b = '\n'
    · subst hfeed
      obtain ⟨later, hlater, hsame⟩ := linesOf_break hline hb text
      have hlog : logLines (line ++ '\n' :: cut (budget - (utf8Length line + 1)) text) =
          line :: logLines (cut (budget - (utf8Length line + 1)) text) := by
        have hone : ∀ l ∈ [line], '\n' ∉ l := fun l hl => List.mem_singleton.1 hl ▸ no_feed hline
        simpa [ended] using logLines_ended hone (cut (budget - (utf8Length line + 1)) text)
      rw [hlater, hsame rfl, fixtureLines, cut_feed hcap, hlog, List.cons.injEq, and_iff_right rfl]
      by_cases hlast : budget ≤ utf8Length line + 1
      · have hleft : budget - (utf8Length line + 1) = 0 := by omega
        rw [if_pos hlast, hleft, cut_zero]
        exact iff_of_true rfl (cutsNoLine_of_feed hline hpos hcap hlast text)
      · rw [if_neg hlast, cutsNoLine_feed hline hlast]
        refine ih text.length ?_ text _ rfl
        rw [← hlength, List.length_append, List.length_cons]
        omega
    · exact fixtureLines_iff_of_other hline hb hfeed hcap text

theorem fixture_iff (maxBytes : ℕ) (text : Text) :
    (iterLinesFromText maxBytes 0 (linesOf text)).map Item.line =
      linesUpTo maxBytes (encode text) ↔ CutsNoLine maxBytes text := by
  rw [map_line_iterText, Nat.sub_zero, linesUpTo, decode_take_encode]
  exact fixtureLines_iff text maxBytes

/-! ## Streaming and the log -/

universe u v

/-- **What streaming leaves of a log**: its lines up to the cap where no chunk ends inside a
character and the last one has nothing past the cap; the announcement of what is not read where the
reads end inside a line; and the same lines from the fixtures where the cap comes after no other
boundaries than line feeds, and between lines. -/
theorem streaming_iff {σ : Type u} {ρ : Type v} (s : Settings σ ρ) (window : TimeWindow) :
    (∀ sending : Sending s.maxBytes,
      sending.items.map Item.line = linesUpTo s.maxBytes sending.log ↔
        Seamless sending.read ∧ sending.WithinCap) ∧
    (∀ (target : PodTarget) (sendings : Instance → Sending s.maxBytes),
      (∀ inst ∈ target.instancesRead, (sendings inst).Unread →
        (∃ item ∈ (sendings inst).items, item.hitCap = true) ∧
          capHit s.maxBytes target ∈ (readOne s (answering s sendings) window target).gaps) ↔
        ∀ inst ∈ target.instancesRead, (sendings inst).Unread → (sendings inst).StopsInLine) ∧
    ∀ text : Text, (iterLinesFromText s.maxBytes 0 (linesOf text)).map Item.line =
      linesUpTo s.maxBytes (encode text) ↔ CutsNoLine s.maxBytes text :=
  ⟨Sending.lines_iff, fun target sendings => announced_iff s window target sendings,
    fixture_iff s.maxBytes⟩

/-- A letter of two bytes that is cut between two chunks becomes two replacements. -/
theorem cut_letter_replaced : ¬∀ sending : Sending 10,
    sending.items.map Item.line = linesUpTo 10 sending.log := by
  intro h
  have hlines := h ⟨[0xc3, 0xa9], [[0xc3], [0xa9]], by decide, .inl rfl⟩
  exact absurd hlines (by decide)

end ResidentCrm.Logs
