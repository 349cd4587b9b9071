import ResidentCrm.Dlt.Corroborate

/-!
# Evidence that cannot convict

A verdict is a discrepancy exactly where a line of the packet's own, at error level, names an
exception that the declared trace does not explain (`discrepancy_iff`). So a record that has no such
line, put where it changes the attribution of no other, never makes one.
-/

namespace ResidentCrm.Dlt.Corroborate

section

variable {alnum : Char → Bool}

/-! ## Exceptions, line by line -/

theorem prefix_of_fqcnHere {run found : Text} (h : fqcnHere alnum run = some found) :
    found <+: run := by
  unfold fqcnHere at h
  simp only at h
  split at h
  · cases h
  · split at h
    · cases h
    · obtain ⟨name, -, rfl⟩ := Option.map_eq_some_iff.1 h
      exact List.take_prefix _ _

theorem takeWhile_append_cons {p : Char → Bool} {a b : Text} {c : Char} (hc : p c = false) :
    (a ++ c :: b).takeWhile p = a.takeWhile p := by
  induction a with
  | nil => rw [List.nil_append, List.takeWhile_cons_of_neg (by simp [hc]), List.takeWhile_nil]
  | cons d a ih =>
    rw [List.cons_append, List.takeWhile_cons, List.takeWhile_cons, ih]

theorem newline_not_inName : inName alnum '\n' = false := rfl

theorem newline_not_isWord : Text.isWord alnum '\n' = false := rfl

/-- A search of two lines is a search of each. -/
theorem findFqcns_append_newline {prev : Option Char} {skip : ℕ} {a b : Text}
    (h : skip ≤ a.length) : findFqcns alnum prev skip (a ++ '\n' :: b) =
      findFqcns alnum prev skip a ++ fqcnsIn alnum b := by
  induction a generalizing prev skip with
  | nil =>
    obtain rfl : skip = 0 := Nat.le_zero.1 h
    have hhere : fqcnHere alnum (('\n' :: b).takeWhile (inName alnum)) = none := by
      rw [List.takeWhile_cons_of_neg (by simp [newline_not_inName])]
      rfl
    have hprev : ∀ s : Text, findFqcns alnum (some '\n') 0 s = findFqcns alnum none 0 s := by
      rintro (_ | ⟨c, s⟩)
      · rfl
      · simp only [findFqcns, Option.any_some, newline_not_isWord, Option.any_none,
          Bool.false_eq_true, if_false]
    simp only [List.nil_append, findFqcns, hhere, ite_self]
    exact hprev b
  | cons c a ih =>
    cases skip with
    | succ skip => exact ih (Nat.le_of_succ_le_succ h)
    | zero =>
      have hrun : (c :: a ++ '\n' :: b).takeWhile (inName alnum) =
          (c :: a).takeWhile (inName alnum) := takeWhile_append_cons newline_not_inName
      rw [List.cons_append] at hrun
      rw [List.cons_append, findFqcns, findFqcns, hrun]
      split
      · next found hfound =>
        have hbegins : found <+: (c :: a).takeWhile (inName alnum) := by
          split at hfound
          · cases hfound
          · exact prefix_of_fqcnHere hfound
        have hlength := (hbegins.trans (List.takeWhile_prefix _)).length_le
        rw [ih (by simp only [List.length_cons] at hlength; omega), List.cons_append]
      · exact ih (Nat.zero_le _)

theorem fqcnsIn_nil : fqcnsIn alnum [] = [] := rfl

/-- The exceptions of joined lines are those of the lines. -/
theorem mem_fqcnsIn_joined {lines : List Text} {fqcn : Text} :
    fqcn ∈ fqcnsIn alnum (['\n'].intercalate lines) ↔ ∃ line ∈ lines, fqcn ∈ fqcnsIn alnum line := by
  induction lines with
  | nil => simp [fqcnsIn_nil]
  | cons line lines ih =>
    cases lines with
    | nil => simp
    | cons line' lines =>
      have hjoin : ['\n'].intercalate (line :: line' :: lines) =
          line ++ '\n' :: ['\n'].intercalate (line' :: lines) := by
        simp [List.intercalate]
      rw [hjoin, fqcnsIn, findFqcns_append_newline (Nat.zero_le _), List.mem_append, ih]
      simp [fqcnsIn]

/-! ## What a discrepancy is -/

/-- Some line that may convict names an exception that is not explained. -/
def Accused (alnum : Char → Bool) (declared : Declared) (scanned : List ScannedLine) : Prop :=
  ∃ line ∈ scanned, line.accuses = true ∧
    ∃ fqcn ∈ fqcnsIn alnum line.text, declared.explains fqcn = false

theorem mem_unexplainedIn {declared : Declared} {s fqcn : Text} :
    fqcn ∈ unexplainedIn alnum declared s ↔
      fqcn ∈ fqcnsIn alnum s ∧ declared.explains fqcn = false := by
  unfold unexplainedIn sortedSet
  rw [List.mem_mergeSort, List.mem_dedup, List.mem_filter, Bool.not_eq_true']

theorem mem_unexplained_joined {declared : Declared} {scanned : List ScannedLine} {fqcn : Text} :
    fqcn ∈ unexplainedIn alnum declared (joined ScannedLine.accuses scanned) ↔
      declared.explains fqcn = false ∧
        ∃ line ∈ scanned, line.accuses = true ∧ fqcn ∈ fqcnsIn alnum line.text := by
  rw [mem_unexplainedIn, joined, mem_fqcnsIn_joined, and_comm]
  refine and_congr_right fun _ => ?_
  simp only [List.mem_map, List.mem_filter]
  constructor
  · rintro ⟨-, ⟨line, ⟨hmem, haccuses⟩, rfl⟩, hfqcn⟩
    exact ⟨line, hmem, haccuses, hfqcn⟩
  · rintro ⟨line, hmem, haccuses, hfqcn⟩
    exact ⟨line.text, ⟨line, ⟨hmem, haccuses⟩, rfl⟩, hfqcn⟩

theorem accused_iff {declared : Declared} {scanned : List ScannedLine} :
    Accused alnum declared scanned ↔
      unexplainedIn alnum declared (joined ScannedLine.accuses scanned) ≠ [] := by
  constructor
  · rintro ⟨line, hmem, haccuses, fqcn, hfqcn, hexplains⟩
    exact List.ne_nil_of_mem (mem_unexplained_joined.2 ⟨hexplains, line, hmem, haccuses, hfqcn⟩)
  · intro hne
    obtain ⟨fqcn, hfqcn⟩ := List.exists_mem_of_ne_nil _ hne
    obtain ⟨hexplains, line, hmem, haccuses, hfound⟩ := mem_unexplained_joined.1 hfqcn
    exact ⟨line, hmem, haccuses, fqcn, hfound, hexplains⟩

/-- **A verdict on scanned lines is a discrepancy exactly where one of them accuses.** -/
theorem judge_isDiscrepancy_iff {declared : Declared} {frames : List Text}
    {scanned : List ScannedLine} :
    (judge alnum declared frames scanned).isDiscrepancy = true ↔
      Accused alnum declared scanned := by
  rw [accused_iff]
  simp only [judge, Corroboration.isDiscrepancy]
  split <;> split <;> simp_all

/-- The log text is not looked at: there is none, or it says that there is none. -/
def NotLooked (logs : Text) : Prop :=
  Text.strip logs = [] ∨ (skipMarkers ++ emptyMarkers).any (Text.has · logs) = true

theorem corroborate_of_looked {logs : Text} {declared : Declared} {frames : List Text}
    (h : ¬ NotLooked logs) : corroborate alnum logs declared frames =
      if scanLines alnum true (Text.splitlines logs) = [] then { verdict := .unverifiable }
      else judge alnum declared frames (scanLines alnum true (Text.splitlines logs)) := by
  unfold NotLooked at h
  rw [List.any_append, Bool.or_eq_true, not_or, not_or] at h
  unfold corroborate
  rw [if_neg h.1, if_neg h.2.1, if_neg h.2.2]

theorem not_discrepancy_of_notLooked {logs : Text} {declared : Declared} {frames : List Text}
    (h : NotLooked logs) : (corroborate alnum logs declared frames).isDiscrepancy = false := by
  unfold corroborate
  split
  · rfl
  · next hstrip =>
    split
    · rfl
    · next hskip =>
      have hempty := h.resolve_left hstrip
      rw [List.any_append, Bool.or_eq_true] at hempty
      rw [if_pos (hempty.resolve_left hskip)]
      rfl

/-- **A verdict is a discrepancy exactly where the text was looked at and a line accuses.** -/
theorem discrepancy_iff {logs : Text} {declared : Declared} {frames : List Text} :
    (corroborate alnum logs declared frames).isDiscrepancy = true ↔
      ¬ NotLooked logs ∧ Accused alnum declared (scanLines alnum true (Text.splitlines logs)) := by
  by_cases hlooked : NotLooked logs
  · rw [not_discrepancy_of_notLooked hlooked]
    exact iff_of_false Bool.false_ne_true fun h => h.1 hlooked
  · rw [corroborate_of_looked hlooked, and_iff_right hlooked]
    split
    · next hnil =>
      rw [hnil]
      refine iff_of_false Bool.false_ne_true ?_
      rintro ⟨line, hmem, -⟩
      cases hmem
    · exact judge_isDiscrepancy_iff

/-! ## Records put in -/

/-- A record: a line that starts one and lines that do not, none of them at error level, or the
first of them marked. -/
structure Harmless (alnum : Char → Bool) (record : Text) : Prop where
  shape : ∃ opener rest, Text.lines record = opener :: rest ∧ isLineStart opener = true ∧
    (∀ line ∈ rest, isLineStart line = false) ∧
    ((∀ line ∈ opener :: rest, isErrorLine alnum line = false) ∨
      Text.has contextLineMarker opener = true)

/-- The first line starts a record. -/
def StartsRecord (s : Text) : Prop :=
  ∃ line rest, Text.lines s = line :: rest ∧ isLineStart line = true

/-- Harmless records were put in, each where a record starts or at the end. -/
inductive Inserted (alnum : Char → Bool) (logs : Text) : Text → Prop
  | refl : Inserted alnum logs logs
  | before {a b record : Text} : Inserted alnum logs (a ++ b) → Text.EndsLine a → StartsRecord b →
    Harmless alnum record → Text.EndsLine record → Inserted alnum logs (a ++ (record ++ b))
  | atEnd {a record : Text} : Inserted alnum logs a → Text.EndsLine a → Harmless alnum record →
    Inserted alnum logs (a ++ record)
  | onNewLine {a record : Text} : Inserted alnum logs a → Harmless alnum record →
    Inserted alnum logs (a ++ '\n' :: record)

/-- The line above the next one is the packet's. -/
def lastAttribution (inherited : Bool) (lines : List Text) : Bool :=
  lines.foldl attribution inherited

theorem scanLines_append {inherited : Bool} {l l' : List Text} :
    scanLines alnum inherited (l ++ l') =
      scanLines alnum inherited l ++ scanLines alnum (lastAttribution inherited l) l' := by
  induction l generalizing inherited with
  | nil => rfl
  | cons line l ih =>
    simp only [List.cons_append, scanLines, ih, List.append_assoc]
    rfl

/-- Empty lines are not scanned. -/
theorem scanLines_splitlines {inherited : Bool} {s : Text} :
    scanLines alnum inherited (Text.splitlines s) = scanLines alnum inherited (Text.lines s) := by
  have hfilter : ∀ (l : List Text) (inherited : Bool),
      scanLines alnum inherited l = scanLines alnum inherited (l.filter (· ≠ [])) := by
    intro l
    induction l with
    | nil => exact fun _ => rfl
    | cons line l ih =>
      intro inherited
      by_cases hline : line = []
      · subst hline
        rw [List.filter_cons_of_neg (by simp)]
        exact ih inherited
      · rw [List.filter_cons_of_pos (by simpa using hline), scanLines, scanLines, ih]
  exact hfilter _ _

/-- A line that starts a record is attributed by itself. -/
theorem scanLines_of_start {s : Text} (h : StartsRecord s) (inherited inherited' : Bool) :
    scanLines alnum inherited (Text.lines s) = scanLines alnum inherited' (Text.lines s) := by
  obtain ⟨line, rest, hlines, hstart⟩ := h
  have hattribution : attribution inherited line = attribution inherited' line := by
    rw [attribution, attribution, if_pos hstart, if_pos hstart]
  rw [hlines, scanLines, scanLines, hattribution]

/-- No line of the texts accuses. -/
def Clear (scanned : List ScannedLine) : Prop := ∀ line ∈ scanned, line.accuses = false

theorem clear_of_not_error {l : List Text} (h : ∀ line ∈ l, isErrorLine alnum line = false)
    (inherited : Bool) : Clear (scanLines alnum inherited l) := by
  induction l generalizing inherited with
  | nil => exact nofun
  | cons line l ih =>
    intro scanned hmem
    rcases List.mem_append.1 hmem with hmem | hmem
    · split at hmem
      · rw [List.mem_singleton.1 hmem, ScannedLine.accuses, h line List.mem_cons_self, Bool.and_false]
      · cases hmem
    · exact ih (fun line' hline' => h line' (List.mem_cons_of_mem _ hline')) _ scanned hmem

theorem clear_of_not_attributed {l : List Text} (h : ∀ line ∈ l, isLineStart line = false) :
    Clear (scanLines alnum false l) := by
  induction l with
  | nil => exact nofun
  | cons line l ih =>
    have hattribution : attribution false line = false := by
      rw [attribution, h line List.mem_cons_self, if_neg Bool.false_ne_true]
    intro scanned hmem
    rw [scanLines, hattribution] at hmem
    rcases List.mem_append.1 hmem with hmem | hmem
    · split at hmem
      · rw [List.mem_singleton.1 hmem, ScannedLine.accuses, Bool.false_and]
      · cases hmem
    · exact ih (fun line' hline' => h line' (List.mem_cons_of_mem _ hline')) scanned hmem

theorem Harmless.clear {record : Text} (h : Harmless alnum record) (inherited : Bool) :
    Clear (scanLines alnum inherited (Text.lines record)) := by
  obtain ⟨opener, rest, hlines, hstart, hrest, hquiet | hmarked⟩ := h.shape
  · rw [hlines]
    exact clear_of_not_error hquiet inherited
  · have hattribution : attribution inherited opener = false := by
      rw [attribution, if_pos hstart, hmarked, Bool.not_true]
    intro scanned hmem
    rw [hlines, scanLines, hattribution] at hmem
    rcases List.mem_append.1 hmem with hmem | hmem
    · split at hmem
      · rw [List.mem_singleton.1 hmem, ScannedLine.accuses, Bool.false_and]
      · cases hmem
    · exact clear_of_not_attributed hrest scanned hmem

theorem accused_append {declared : Declared} {l l' : List ScannedLine} :
    Accused alnum declared (l ++ l') ↔ Accused alnum declared l ∨ Accused alnum declared l' := by
  simp only [Accused, List.mem_append, or_and_right, exists_or]

theorem not_accused_of_clear {declared : Declared} {l : List ScannedLine} (h : Clear l) :
    ¬ Accused alnum declared l := by
  rintro ⟨line, hmem, haccuses, -⟩
  rw [h line hmem] at haccuses
  cases haccuses

/-- What a text accuses of. -/
def Accuses (alnum : Char → Bool) (declared : Declared) (logs : Text) : Prop :=
  Accused alnum declared (scanLines alnum true (Text.lines logs))

theorem accuses_append {declared : Declared} {a b : Text} (ha : Text.EndsLine a) :
    Accuses alnum declared (a ++ b) ↔ Accuses alnum declared a ∨
      Accused alnum declared
        (scanLines alnum (lastAttribution true (Text.lines a)) (Text.lines b)) := by
  rw [Accuses, ha.lines_append, scanLines_append, accused_append, Accuses]

/-- Harmless records do not change what a text accuses of. -/
theorem Inserted.accuses_iff {declared : Declared} {logs logs' : Text}
    (h : Inserted alnum logs logs') :
    Accuses alnum declared logs' ↔ Accuses alnum declared logs := by
  induction h with
  | refl => exact Iff.rfl
  | @before a b record _ ha hb hrecord hends ih =>
    rw [← ih, accuses_append ha, accuses_append ha, hends.lines_append, scanLines_append,
      accused_append, or_iff_right (not_accused_of_clear (hrecord.clear _)),
      scanLines_of_start hb]
  | @atEnd a record _ ha hrecord ih =>
    rw [← ih, accuses_append ha, or_iff_left (not_accused_of_clear (hrecord.clear _))]
  | @onNewLine a record _ hrecord ih =>
    rw [← ih, Accuses, Text.lines_append_cons rfl, scanLines_append, accused_append,
      or_iff_left (not_accused_of_clear (hrecord.clear _)), Accuses]

/-! ## What further records change -/

theorem not_accuses_of_blank {declared : Declared} {logs : Text} (h : Text.strip logs = []) :
    ¬ Accuses alnum declared logs := by
  refine not_accused_of_clear (clear_of_not_error (fun line hline => ?_) _)
  by_contra herror
  obtain ⟨word, hword, hin⟩ := Text.infix_of_hasWord (Bool.of_not_eq_false herror)
  have hletters : ["ERROR".toList, "FATAL".toList, "SEVERE".toList].all
      (·.any (!Text.isSpace ·)) = true := rfl
  obtain ⟨c, hc, hspace⟩ := List.any_eq_true.1 (List.all_eq_true.1 hletters word hword)
  rw [Bool.not_eq_true'] at hspace
  have hmem : c ∈ logs := Text.mem_of_mem_lines hline (hin.subset hc)
  rw [Text.strip_eq_nil h c hmem] at hspace
  cases hspace

theorem mem_markers_not_break {marker : Text} (h : marker ∈ skipMarkers ++ emptyMarkers) :
    ∀ c ∈ marker, Text.isBreak c = false := by
  have hall : (skipMarkers ++ emptyMarkers).all (·.all (!Text.isBreak ·)) = true := rfl
  simpa using List.all_eq_true.1 hall marker h

/-- A marker that stands in the text stands in it still. -/
theorem Inserted.markers {logs logs' : Text} (h : Inserted alnum logs logs')
    (hmarker : (skipMarkers ++ emptyMarkers).any (Text.has · logs) = true) :
    (skipMarkers ++ emptyMarkers).any (Text.has · logs') = true := by
  simp only [List.any_eq_true, Text.has_iff] at hmarker ⊢
  obtain ⟨marker, hmem, hin⟩ := hmarker
  refine ⟨marker, hmem, ?_⟩
  induction h with
  | refl => exact hin
  | @before a b record _ ha _ _ _ ih =>
    rcases ha.infix_append (mem_markers_not_break hmem) ih with hina | hinb
    · exact hina.trans (List.prefix_append _ _).isInfix
    · exact hinb.trans ((List.suffix_append record b).trans (List.suffix_append a _)).isInfix
  | atEnd _ _ _ ih => exact ih.trans (List.prefix_append _ _).isInfix
  | onNewLine _ _ ih => exact ih.trans (List.prefix_append _ _).isInfix

/-- Harmless records make no discrepancy. -/
theorem Inserted.not_discrepancy {declared : Declared} {frames : List Text} {logs logs' : Text}
    (h : Inserted alnum logs logs')
    (hlogs : (corroborate alnum logs declared frames).isDiscrepancy = false) :
    (corroborate alnum logs' declared frames).isDiscrepancy = false := by
  by_contra hlogs'
  obtain ⟨hlooked', haccused'⟩ := discrepancy_iff.1 (Bool.of_not_eq_false hlogs')
  rw [scanLines_splitlines] at haccused'
  have haccuses : Accuses alnum declared logs := h.accuses_iff.1 haccused'
  by_cases hlooked : NotLooked logs
  · rcases hlooked with hblank | hmarker
    · exact not_accuses_of_blank hblank haccuses
    · exact hlooked' (.inr (h.markers hmarker))
  · have hdiscrepancy : (corroborate alnum logs declared frames).isDiscrepancy = true :=
      discrepancy_iff.2 ⟨hlooked, by rw [scanLines_splitlines]; exact haccuses⟩
    rw [hlogs] at hdiscrepancy
    cases hdiscrepancy

theorem matchedLine_eq_none_iff {declared : Declared} {scanned : List ScannedLine} :
    matchedLine declared scanned = none ↔ ∀ line ∈ scanned,
      ∀ needle ∈ [declared.root, simpleName declared.root, declared.code], needle ≠ [] →
        Text.has needle line.text = false := by
  have hneedles : ∀ needle, needle ∈ [declared.root, simpleName declared.root, declared.code] ∧
      needle ≠ [] ↔ ∃ label, (needle, label) ∈ declared.needles := by
    intro needle
    simp only [Declared.needles, List.mem_filter, List.mem_cons, List.not_mem_nil, or_false,
      Prod.mk.injEq, decide_eq_true_eq]
    constructor
    · rintro ⟨rfl | rfl | rfl, hne⟩
      · exact ⟨_, .inl ⟨rfl, rfl⟩, hne⟩
      · exact ⟨_, .inr (.inl ⟨rfl, rfl⟩), hne⟩
      · exact ⟨_, .inr (.inr ⟨rfl, rfl⟩), hne⟩
    · rintro ⟨label, ⟨rfl, -⟩ | ⟨rfl, -⟩ | ⟨rfl, -⟩, hne⟩
      · exact ⟨.inl rfl, hne⟩
      · exact ⟨.inr (.inl rfl), hne⟩
      · exact ⟨.inr (.inr rfl), hne⟩
  unfold matchedLine
  simp only [List.findSome?_eq_none_iff, Option.map_eq_none_iff, List.find?_eq_none,
    Bool.not_eq_true]
  constructor
  · intro h line hline needle hneedle hne
    obtain ⟨label, hmem⟩ := (hneedles needle).1 ⟨hneedle, hne⟩
    exact h (needle, label) hmem line hline
  · rintro h ⟨needle, label⟩ hmem line hline
    obtain ⟨hneedle, hne⟩ := (hneedles needle).2 ⟨label, hmem⟩
    exact h line hline needle hneedle hne

/-- What a contradiction rests on. -/
theorem judge_contradicted {declared : Declared} {frames : List Text} {scanned : List ScannedLine}
    (h : (judge alnum declared frames scanned).verdict = .contradicted) :
    matchedLine declared scanned = none ∧ Accused alnum declared scanned := by
  rw [accused_iff]
  simp only [judge] at h
  cases hfound : matchedLine declared scanned with
  | some found =>
    rw [hfound, Option.isSome_some, if_pos rfl] at h
    split at h <;> cases h
  | none =>
    refine ⟨rfl, fun hnil => ?_⟩
    rw [hfound, Option.isSome_none, if_neg Bool.false_ne_true, if_pos hnil] at h
    cases h

theorem looked_of_contradicted {logs : Text} {declared : Declared} {frames : List Text}
    (h : (corroborate alnum logs declared frames).verdict = .contradicted) :
    (judge alnum declared frames
      (scanLines alnum true (Text.splitlines logs))).verdict = .contradicted := by
  have hdiscrepancy : (corroborate alnum logs declared frames).isDiscrepancy = true := by
    rw [Corroboration.isDiscrepancy, h]
    rfl
  rw [corroborate_of_looked (discrepancy_iff.1 hdiscrepancy).1] at h
  split at h
  · cases h
  · exact h

/-- **Harmless evidence never makes a discrepancy, and a contradiction rests on no line of the
declared root and on an error of the packet's own outside the chain.** -/
theorem corroborate_monotone (declared : Declared) (frames : List Text) :
    (∀ logs logs', Inserted alnum logs logs' →
      (corroborate alnum logs declared frames).isDiscrepancy = false →
        (corroborate alnum logs' declared frames).isDiscrepancy = false) ∧
    ∀ logs, (corroborate alnum logs declared frames).verdict = .contradicted →
      (∀ line ∈ scanLines alnum true (Text.splitlines logs),
        ∀ needle ∈ [declared.root, simpleName declared.root, declared.code], needle ≠ [] →
          Text.has needle line.text = false) ∧
      ∃ line ∈ scanLines alnum true (Text.splitlines logs),
        line.attributed = true ∧ line.errorLevel = true ∧
          ∃ fqcn ∈ fqcnsIn alnum line.text, fqcn ∉ declared.chain := by
  refine ⟨fun logs logs' h hlogs => h.not_discrepancy hlogs, fun logs h => ?_⟩
  obtain ⟨hfound, line, hline, haccuses, fqcn, hfqcn, hexplains⟩ :=
    judge_contradicted (looked_of_contradicted h)
  refine ⟨matchedLine_eq_none_iff.1 hfound, line, hline, ?_, ?_, fqcn, hfqcn, fun hchain => ?_⟩
  · exact (Bool.and_eq_true _ _ ▸ haccuses : _ ∧ _).1
  · exact (Bool.and_eq_true _ _ ▸ haccuses : _ ∧ _).2
  · simp [Declared.explains, hchain] at hexplains

end

/-! ## A record put in, and one that convicts -/

def fooDeclared : Declared where
  root := "a.b.FooException".toList
  code := []
  chain := ["a.b.FooException".toList]

def fooLogged : Text := "[10:00:00] ERROR a.b.FooException: boom".toList

/-- Another packet's error, on a line around the packet's own. -/
def barAround : Text := "[10:00:00] [context] ERROR c.d.BarException: boom\n".toList

/-- The same error, of the packet's own. -/
def barLogged : Text := "[10:00:00] ERROR c.d.BarException: boom".toList

/-- No letters but those of ASCII. -/
def ascii (_ : Char) : Bool := false

instance decidableAccused (declared : Declared) (scanned : List ScannedLine) :
    Decidable (Accused ascii declared scanned) :=
  inferInstanceAs (Decidable (∃ line ∈ scanned, line.accuses = true ∧
    ∃ fqcn ∈ fqcnsIn ascii line.text, declared.explains fqcn = false))

theorem fooLogged_not_discrepancy :
    (corroborate ascii fooLogged fooDeclared []).isDiscrepancy = false := by
  rw [← Bool.not_eq_true, discrepancy_iff]
  rintro ⟨-, haccused⟩
  revert haccused
  decide

theorem barAround_inserted : Inserted ascii fooLogged (barAround ++ fooLogged) := by
  have hline : Text.lines barAround = [barAround.dropLast] := by decide
  refine .before .refl (.inl rfl) ⟨fooLogged, [], by decide, by decide⟩
    ⟨barAround.dropLast, [], hline, by decide, by decide, .inr (by decide)⟩
    (.inr ⟨barAround.dropLast, '\n', rfl, by decide⟩)

theorem barLogged_contradicted :
    (corroborate ascii barLogged fooDeclared []).verdict = .contradicted := by
  have hlooked : ¬ NotLooked barLogged := by
    unfold NotLooked
    decide
  have haccused : Accused ascii fooDeclared (scanLines ascii true (Text.splitlines barLogged)) := by
    decide
  have hfound : matchedLine fooDeclared (scanLines ascii true (Text.splitlines barLogged)) = none := by
    decide
  have hscanned : scanLines ascii true (Text.splitlines barLogged) ≠ [] := by
    decide
  rw [corroborate_of_looked hlooked, if_neg hscanned]
  unfold judge
  dsimp only
  rw [hfound, Option.isSome_none, if_neg Bool.false_ne_true, if_neg (accused_iff.1 haccused)]

theorem corroborate_monotone_bar :
    (corroborate ascii (barAround ++ fooLogged) fooDeclared []).isDiscrepancy = false ∧
      (corroborate ascii barLogged fooDeclared []).verdict = .contradicted ∧
      (∀ line ∈ scanLines ascii true (Text.splitlines barLogged),
        ∀ needle ∈ [fooDeclared.root, simpleName fooDeclared.root, fooDeclared.code], needle ≠ [] →
          Text.has needle line.text = false) ∧
      ∃ line ∈ scanLines ascii true (Text.splitlines barLogged),
        line.attributed = true ∧ line.errorLevel = true ∧
          ∃ fqcn ∈ fqcnsIn ascii line.text, fqcn ∉ fooDeclared.chain :=
  have hall := corroborate_monotone fooDeclared []
  ⟨hall.1 fooLogged _ barAround_inserted fooLogged_not_discrepancy, barLogged_contradicted,
    hall.2 barLogged barLogged_contradicted⟩

end ResidentCrm.Dlt.Corroborate
