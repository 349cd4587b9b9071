import ResidentCrm.Dlt.HarmlessEvidence
import ResidentCrm.Lib.Joined

/-!
# Which lines accuse

A text accuses of an exception exactly where a line at error level names it and the nearest line at
or above it that starts a record is not marked as context (`mem_unexplained_iff`). A text that is
joined from pieces, each of which starts a record or does not hold the name, accuses of it exactly
where one of its pieces does by itself (`blames_pieces`).
-/

namespace ResidentCrm.Dlt.Corroborate

section

variable {alnum : Char → Bool}

/-! ## The nearest start of a record -/

/-- Does the last of the lines belong to the packet? The nearest start of a record says so, and
where there is none the lines above do. -/
def owned (inherited : Bool) (lines : List Text) : Bool :=
  match lines.reverse.find? isLineStart with
  | some opener => !Text.has contextLineMarker opener
  | none => inherited

theorem owned_concat (inherited : Bool) (lines : List Text) (line : Text) :
    owned inherited (lines ++ [line]) = attribution (owned inherited lines) line := by
  unfold owned attribution
  rw [List.reverse_append, List.reverse_singleton, List.singleton_append, List.find?_cons]
  by_cases hstart : isLineStart line = true
  · rw [hstart, if_pos rfl]
  · rw [Bool.not_eq_true] at hstart
    rw [hstart, if_neg Bool.false_ne_true]

/-- The attribution that the scan carries is that of the nearest start. -/
theorem lastAttribution_eq_owned (inherited : Bool) (lines : List Text) :
    lastAttribution inherited lines = owned inherited lines := by
  induction lines using List.reverseRecOn with
  | nil => rfl
  | append_singleton lines line ih =>
    rw [owned_concat, ← ih, lastAttribution, lastAttribution, List.foldl_append, List.foldl_cons,
      List.foldl_nil]

/-! ## Lines that accuse -/

/-- Some of the lines, at error level, names the exception, and the nearest start of a record makes
it the packet's. -/
def Blames (alnum : Char → Bool) (fqcn : Text) (inherited : Bool) (lines : List Text) : Prop :=
  ∃ above line below, lines = above ++ line :: below ∧ isErrorLine alnum line = true ∧
    fqcn ∈ fqcnsIn alnum (Text.strip line) ∧ owned inherited (above ++ [line]) = true

theorem mem_scanLines {inherited : Bool} {lines : List Text} {scanned : ScannedLine} :
    scanned ∈ scanLines alnum inherited lines ↔
      ∃ above line below, lines = above ++ line :: below ∧ isMatchableLine alnum line = true ∧
        scanned = ⟨Text.strip line, lastAttribution inherited (above ++ [line]),
          isErrorLine alnum line⟩ := by
  induction lines generalizing inherited with
  | nil => simp [scanLines]
  | cons first lines ih =>
    rw [scanLines, List.mem_append, ih]
    constructor
    · rintro (h | ⟨above, line, below, rfl, hmatchable, rfl⟩)
      · split at h
        · next hmatchable =>
          exact ⟨[], first, lines, rfl, hmatchable, List.mem_singleton.1 h⟩
        · cases h
      · exact ⟨first :: above, line, below, rfl, hmatchable, rfl⟩
    · rintro ⟨above, line, below, hlines, hmatchable, rfl⟩
      cases above with
      | nil =>
        obtain ⟨rfl, rfl⟩ := List.cons.inj hlines
        exact .inl (by rw [if_pos hmatchable]; exact List.mem_singleton.2 rfl)
      | cons first' above =>
        obtain ⟨rfl, rfl⟩ := List.cons.inj hlines
        exact .inr ⟨above, line, below, rfl, hmatchable, rfl⟩

/-- An error is also matchable. -/
theorem isMatchableLine_of_isErrorLine {line : Text} (h : isErrorLine alnum line = true) :
    isMatchableLine alnum line = true := by
  have hmono : ∀ {words words' : List Text} (_ : words ⊆ words') (s : Text) (prev : Option Char),
      Text.hasWord alnum words prev s = true → Text.hasWord alnum words' prev s = true := by
    intro words words' hsub s
    induction s with
    | nil => exact fun _ h => h
    | cons c s ih =>
      intro prev h
      rw [Text.hasWord, Bool.or_eq_true, Bool.and_eq_true] at h ⊢
      refine h.imp (fun h => ⟨h.1, ?_⟩) (ih _)
      obtain ⟨word, hword, hhere⟩ := List.any_eq_true.1 h.2
      exact List.any_eq_true.2 ⟨word, hsub hword, hhere⟩
  exact hmono (by decide) line none h

theorem blames_iff_scanned {fqcn : Text} {inherited : Bool} {lines : List Text} :
    Blames alnum fqcn inherited lines ↔ ∃ scanned ∈ scanLines alnum inherited lines,
      scanned.accuses = true ∧ fqcn ∈ fqcnsIn alnum scanned.text := by
  constructor
  · rintro ⟨above, line, below, hlines, herror, hfqcn, howned⟩
    refine ⟨_, mem_scanLines.2 ⟨above, line, below, hlines,
      isMatchableLine_of_isErrorLine herror, rfl⟩, ?_, hfqcn⟩
    rw [ScannedLine.accuses, lastAttribution_eq_owned, howned, herror]
    rfl
  · rintro ⟨scanned, hscanned, haccuses, hfqcn⟩
    obtain ⟨above, line, below, hlines, -, rfl⟩ := mem_scanLines.1 hscanned
    obtain ⟨howned, herror⟩ := (Bool.and_eq_true _ _ ▸ haccuses : _ ∧ _)
    exact ⟨above, line, below, hlines, herror, hfqcn, lastAttribution_eq_owned _ _ ▸ howned⟩

theorem blames_append {fqcn : Text} {inherited : Bool} {l l' : List Text} :
    Blames alnum fqcn inherited (l ++ l') ↔
      Blames alnum fqcn inherited l ∨ Blames alnum fqcn (owned inherited l) l' := by
  rw [blames_iff_scanned, blames_iff_scanned, blames_iff_scanned, scanLines_append,
    lastAttribution_eq_owned]
  simp only [List.mem_append, or_and_right, exists_or]

/-- Below a marked start a line accuses as below no start that is not marked. -/
theorem blames_of_marked {fqcn first : Text} {inherited : Bool} {rest : List Text}
    (hstart : isLineStart first = true) (hmarked : Text.has contextLineMarker first = true) :
    Blames alnum fqcn inherited (first :: rest) ↔ Blames alnum fqcn false rest := by
  have howned : owned inherited [first] = false := by
    rw [← List.nil_append [first], owned_concat, attribution, if_pos hstart, hmarked, Bool.not_true]
  rw [← List.singleton_append, blames_append, howned, or_iff_right]
  rintro ⟨above, line, below, hlines, -, -, hown⟩
  cases above with
  | nil =>
    obtain ⟨rfl, -⟩ := List.cons.inj hlines
    rw [List.nil_append, howned] at hown
    cases hown
  | cons _ above => simp at hlines

/-- **What a text leaves unexplained.** -/
theorem mem_unexplained_iff {logs : Text} {declared : Declared} {frames : List Text} {fqcn : Text} :
    fqcn ∈ (corroborate alnum logs declared frames).unexplained ↔
      ¬ NotLooked logs ∧ declared.explains fqcn = false ∧
        Blames alnum fqcn true (Text.lines logs) := by
  by_cases hlooked : NotLooked logs
  · have hnil : (corroborate alnum logs declared frames).unexplained = [] := by
      unfold corroborate
      split
      · rfl
      · next hstrip =>
        split
        · rfl
        · next hskip =>
          have hempty := hlooked.resolve_left hstrip
          rw [List.any_append, Bool.or_eq_true] at hempty
          rw [if_pos (hempty.resolve_left hskip)]
    rw [hnil]
    exact iff_of_false List.not_mem_nil fun h => h.1 hlooked
  · rw [corroborate_of_looked hlooked, and_iff_right hlooked, blames_iff_scanned,
      ← scanLines_splitlines]
    split
    · next hnil => simp [hnil]
    · exact mem_unexplained_joined

/-- A discrepancy leaves something unexplained. -/
theorem unexplained_ne_nil {logs : Text} {declared : Declared} {frames : List Text}
    (h : (corroborate alnum logs declared frames).isDiscrepancy = true) :
    (corroborate alnum logs declared frames).unexplained ≠ [] := by
  obtain ⟨hlooked, line, hline, haccuses, fqcn, hfqcn, hexplains⟩ := discrepancy_iff.1 h
  refine List.ne_nil_of_mem (mem_unexplained_iff.2 ⟨hlooked, hexplains, ?_⟩)
  rw [scanLines_splitlines] at hline
  exact blames_iff_scanned.2 ⟨line, hline, haccuses, hfqcn⟩

/-! ## Names -/

/-- The text may be the name of an exception: name characters, and a dot before a letter. -/
structure IsName (alnum : Char → Bool) (fqcn : Text) : Prop where
  chars : ∀ c ∈ fqcn, inName alnum c = true
  dotted : ∃ c, c.isLower = true ∧ ['.', c] <:+: fqcn

/-- The second of two segments stands behind a dot. -/
theorem exists_dot_of_segments {run : Text}
    (h : 2 ≤ ((run.splitOn '.').takeWhile startsLower).length) :
    ∃ first c rest, run = first ++ '.' :: c :: rest ∧ c.isLower = true ∧ first.length + 2 ≤
      (((run.splitOn '.').takeWhile startsLower).map fun segment => segment.length + 1).sum := by
  have hjoin : ['.'].intercalate (run.splitOn '.') = run := List.intercalate_splitOn '.'
  have hlower : ∀ part ∈ (run.splitOn '.').takeWhile startsLower, startsLower part = true :=
    fun _ => List.mem_takeWhile_imp
  obtain ⟨rest, hrest⟩ := List.takeWhile_prefix (l := run.splitOn '.') startsLower
  rw [← hrest] at hjoin
  generalize (run.splitOn '.').takeWhile startsLower = segments at h hlower hjoin
  match segments, h with
  | first :: [] :: segments, _ => exact absurd (hlower [] (by simp)) Bool.false_ne_true
  | first :: (c :: second) :: segments, _ =>
    have hc : c.isLower = true := by
      simpa [startsLower] using hlower (c :: second) (by simp)
    have hhead : ∃ tail, ['.'].intercalate ((c :: second) :: (segments ++ rest)) = c :: tail := by
      cases segments ++ rest with
      | nil => exact ⟨second, by simp⟩
      | cons third more => exact ⟨_, List.intercalate_cons_cons⟩
    obtain ⟨tail, htail⟩ := hhead
    refine ⟨first, c, tail, ?_, hc, ?_⟩
    · rw [← hjoin, ← htail]
      simp only [List.cons_append, List.intercalate_cons_cons, List.append_assoc,
        List.nil_append]
    · simp only [List.map_cons, List.sum_cons, List.length_cons]
      omega

theorem isName_of_fqcnHere {run fqcn : Text} (hrun : ∀ c ∈ run, inName alnum c = true)
    (h : fqcnHere alnum run = some fqcn) : IsName alnum fqcn := by
  refine ⟨fun c hc => hrun c ((prefix_of_fqcnHere h).subset hc), ?_⟩
  unfold fqcnHere at h
  simp only at h
  split at h
  · cases h
  · split at h
    · cases h
    · next hlength =>
      obtain ⟨found, -, rfl⟩ := Option.map_eq_some_iff.1 h
      obtain ⟨first, c, rest, hdot, hc, hle⟩ := exists_dot_of_segments (Nat.le_of_not_lt hlength)
      refine ⟨c, hc, ?_⟩
      have hbegins : first ++ ['.', c] <+: run := ⟨rest, by rw [hdot]; simp⟩
      have hlength : (first ++ ['.', c]).length = first.length + 2 := by simp
      refine (List.suffix_append first ['.', c]).isInfix.trans (List.IsPrefix.isInfix ?_)
      exact List.prefix_take_iff.2 ⟨hbegins, by omega⟩

theorem isName_of_mem_findFqcns {prev : Option Char} {skip : ℕ} {s fqcn : Text}
    (h : fqcn ∈ findFqcns alnum prev skip s) : IsName alnum fqcn := by
  fun_induction findFqcns alnum prev skip s with
  | case1 => cases h
  | case2 _ _ _ _ ih => exact ih h
  | case3 _ _ _ found hfound ih =>
    rcases List.mem_cons.1 h with rfl | h
    · split at hfound
      · cases hfound
      · exact isName_of_fqcnHere (fun _ hc => List.mem_takeWhile_imp hc) hfound
    · exact ih h
  | case4 _ _ _ _ ih => exact ih h

/-! ## Pieces -/

theorem infix_of_mem_findFqcns {prev : Option Char} {skip : ℕ} {s fqcn : Text}
    (h : fqcn ∈ findFqcns alnum prev skip s) : fqcn <:+: s := by
  fun_induction findFqcns alnum prev skip s with
  | case1 => cases h
  | case2 _ _ c s ih => exact (ih h).trans (List.suffix_cons c s).isInfix
  | case3 prev c s found hfound ih =>
    rcases List.mem_cons.1 h with rfl | h
    · have hbegins : fqcn <+: (c :: s).takeWhile (inName alnum) := by
        split at hfound
        · cases hfound
        · exact prefix_of_fqcnHere hfound
      exact (hbegins.trans (List.takeWhile_prefix _)).isInfix
    · exact (ih h).trans (List.suffix_cons c s).isInfix
  | case4 prev c s hfound ih => exact (ih h).trans (List.suffix_cons c s).isInfix

/-- What accuses of a name holds it. -/
theorem infix_of_blames {fqcn s : Text} {inherited : Bool}
    (h : Blames alnum fqcn inherited (Text.lines s)) : fqcn <:+: s := by
  obtain ⟨above, line, below, hlines, -, hfqcn, -⟩ := h
  have hline : line ∈ Text.lines s := by
    rw [hlines]
    exact List.mem_append_right _ List.mem_cons_self
  exact (infix_of_mem_findFqcns hfqcn).trans
    ((Text.strip_within line).trans (Text.infix_of_mem_lines hline))

/-- A piece by itself says all of what it accuses of the name: it starts a record, or does not hold
it. -/
def Confined (fqcn piece : Text) : Prop := StartsRecord piece ∨ ¬ fqcn <:+: piece

theorem Confined.blames_iff {fqcn piece : Text} (h : Confined fqcn piece) (inherited : Bool) :
    Blames alnum fqcn inherited (Text.lines piece) ↔
      Blames alnum fqcn true (Text.lines piece) := by
  rcases h with h | h
  · rw [blames_iff_scanned, blames_iff_scanned, scanLines_of_start h inherited true]
  · exact iff_of_false (fun hblames => h (infix_of_blames hblames))
      fun hblames => h (infix_of_blames hblames)

/-- Pieces that do not hold the name accuse of nothing beside the others. -/
theorem exists_blames_iff {fqcn : Text} {inherited : Bool} {l l' : List Text} (hsub : l ⊆ l')
    (h : ∀ piece ∈ l', piece ∈ l ∨ ¬ fqcn <:+: piece) :
    (∃ piece ∈ l', Blames alnum fqcn inherited (Text.lines piece)) ↔
      ∃ piece ∈ l, Blames alnum fqcn inherited (Text.lines piece) := by
  constructor
  · rintro ⟨piece, hpiece, hblames⟩
    exact ⟨piece, (h piece hpiece).resolve_right (not_not_intro (infix_of_blames hblames)), hblames⟩
  · rintro ⟨piece, hpiece, hblames⟩
    exact ⟨piece, hsub hpiece, hblames⟩

/-- **Confined pieces accuse together of what one of them accuses of.** -/
theorem blames_pieces {fqcn : Text} {pieces : List Text} (h : ∀ piece ∈ pieces, Confined fqcn piece)
    (inherited : Bool) : Blames alnum fqcn inherited (pieces.flatMap Text.lines) ↔
      ∃ piece ∈ pieces, Blames alnum fqcn true (Text.lines piece) := by
  induction pieces generalizing inherited with
  | nil => simp [blames_iff_scanned, scanLines]
  | cons piece pieces ih =>
    rw [List.flatMap_cons, blames_append, List.exists_mem_cons_iff,
      (h piece List.mem_cons_self).blames_iff,
      ih fun piece' hpiece' => h piece' (List.mem_cons_of_mem _ hpiece')]

end

end ResidentCrm.Dlt.Corroborate
