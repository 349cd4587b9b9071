import ResidentCrm.Lib.Text

/-!
# Words in a text

The `\w` and `\b` of a regular expression: a word character is a letter, a digit or the underscore
of ASCII, or one that `alnum` says is a letter or a digit beyond it. Where a text is cut at a
character that is no part of what is searched, each part is searched by itself.
-/

namespace ResidentCrm.Text

section

variable (alnum : Char → Bool)

def isWord (c : Char) : Bool :=
  if c.toNat < 128 then c.isAlphanum || c = '_' else alnum c

/-- `word\b` at the start of the text. -/
def wordHere (word s : Text) : Bool :=
  word.isPrefixOf s && !(s.drop word.length).head?.any (isWord alnum)

/-- `\b(w₁|w₂|...)\b` somewhere in a text that follows the character `prev`; the words start and end
with word characters. -/
def hasWord (words : List Text) : (prev : Option Char) → Text → Bool
  | _, [] => false
  | prev, c :: s =>
    (!prev.any (isWord alnum) && words.any (wordHere alnum · (c :: s))) ||
      hasWord words (some c) s

end

theorem isPrefixOf_iff {p s : Text} : p.isPrefixOf s = true ↔ p <+: s := List.isPrefixOf_iff_prefix

theorem has_iff {part s : Text} : has part s = true ↔ part <:+: s := by
  unfold has
  rw [List.any_eq_true]
  constructor
  · rintro ⟨t, ht, hpart⟩
    exact (isPrefixOf_iff.1 hpart).isInfix.trans ((List.mem_tails _ _).1 ht).isInfix
  · rintro ⟨a, b, rfl⟩
    refine ⟨part ++ b, (List.mem_tails _ _).2 ?_, isPrefixOf_iff.2 (List.prefix_append _ _)⟩
    exact ⟨a, by rw [List.append_assoc]⟩

/-- What stands in a text and holds no `c` stands before or after any place where `c` does. -/
theorem infix_of_infix_append {c : Char} {e a b : Text} (hc : c ∉ e) (h : e <:+: a ++ c :: b) :
    e <:+: a ∨ e <:+: b := by
  obtain ⟨s, t, hst⟩ := h
  rw [List.append_assoc] at hst
  rcases List.append_eq_append_iff.1 hst with ⟨l, rfl, hl⟩ | ⟨l, rfl, hl⟩
  · rcases List.append_eq_append_iff.1 hl with ⟨m, rfl, hm⟩ | ⟨m, rfl, hm⟩
    · exact .inl ⟨s, m, by rw [List.append_assoc]⟩
    · cases m with
      | nil => exact .inl ⟨s, [], by simp⟩
      | cons d m =>
        obtain rfl := (List.cons.inj hm).1
        exact (hc (by simp)).elim
  · cases l with
    | nil =>
      cases e with
      | nil => exact .inl (List.nil_infix)
      | cons d e =>
        obtain rfl := (List.cons.inj hl).1
        exact (hc List.mem_cons_self).elim
    | cons d l =>
      obtain rfl := (List.cons.inj hl).1
      exact .inr ⟨l, t, by simpa using (List.cons.inj hl).2.symm⟩

/-- A word that is found stands in the text. -/
theorem infix_of_hasWord {alnum : Char → Bool} {words : List Text} {prev : Option Char} {s : Text}
    (h : hasWord alnum words prev s = true) : ∃ word ∈ words, word <:+: s := by
  induction s generalizing prev with
  | nil => cases h
  | cons c s ih =>
    rw [hasWord, Bool.or_eq_true, Bool.and_eq_true, List.any_eq_true] at h
    rcases h with ⟨-, word, hword, hhere⟩ | h
    · rw [wordHere, Bool.and_eq_true] at hhere
      exact ⟨word, hword, (isPrefixOf_iff.1 hhere.1).isInfix⟩
    · obtain ⟨word, hword, hin⟩ := ih h
      exact ⟨word, hword, hin.trans (List.suffix_cons c s).isInfix⟩

/-! ## Lines -/

/-- The lines that are not empty. -/
def lines (s : Text) : List Text := (splitlines s).filter (· ≠ [])

/-- `str.splitlines` of what follows a begun line; a carriage return and the line feed after it are
one boundary. -/
def linesFrom : (line : Text) → Text → List Text
  | line, [] => if line = [] then [] else [line]
  | line, '\r' :: '\n' :: s => line :: linesFrom [] s
  | line, c :: s => if isBreak c then line :: linesFrom [] s else linesFrom (line ++ [c]) s

/-- `str.splitlines`. -/
def linesOf (s : Text) : List Text := linesFrom [] s

theorem linesFrom_append {a : Text} (ha : ∀ c ∈ a, isBreak c = false) (line s : Text) :
    linesFrom line (a ++ s) = linesFrom (line ++ a) s := by
  induction a generalizing line with
  | nil => rw [List.append_nil, List.nil_append]
  | cons c a ih =>
    have hc := ha c List.mem_cons_self
    rw [List.cons_append, linesFrom]
    · rw [if_neg (by rw [hc]; decide), ih fun d hd => ha d (List.mem_cons_of_mem _ hd),
        List.append_assoc, List.singleton_append]
    · intro _ hreturn
      rw [hreturn] at hc
      cases hc

theorem linesFrom_break {c : Char} (hc : isBreak c = true) (hreturn : c ≠ '\r') (line s : Text) :
    linesFrom line (c :: s) = line :: linesFrom [] s := by
  rw [linesFrom]
  · rw [if_pos hc]
  · exact fun _ h => absurd h hreturn

/-- The text is empty, or ends with a line boundary. -/
def EndsLine (s : Text) : Prop := s = [] ∨ ∃ t c, isBreak c = true ∧ s = t ++ [c]

theorem lines_append_cons {a b : Text} {c : Char} (hc : isBreak c = true) :
    lines (a ++ c :: b) = lines a ++ lines b := by
  unfold lines splitlines
  rw [List.splitOnP_append_cons _ _ hc, List.filter_append]

theorem EndsLine.lines_append {a b : Text} (h : EndsLine a) :
    lines (a ++ b) = lines a ++ lines b := by
  rcases h with rfl | ⟨t, c, hc, rfl⟩
  · rfl
  · rw [List.append_assoc, List.singleton_append, lines_append_cons hc, lines_append_cons hc]
    simp [lines, splitlines]

/-- What stands in a text and holds no line boundary stands on one side of the end of a line. -/
theorem EndsLine.infix_append {e a b : Text} (h : EndsLine a) (he : ∀ c ∈ e, isBreak c = false)
    (hin : e <:+: a ++ b) : e <:+: a ∨ e <:+: b := by
  rcases h with rfl | ⟨t, c, hc, rfl⟩
  · exact .inr hin
  · rw [List.append_assoc, List.singleton_append] at hin
    have hmem : c ∉ e := by
      intro hmem
      rw [he c hmem] at hc
      cases hc
    exact (infix_of_infix_append hmem hin).imp_left fun h' =>
      h'.trans (List.prefix_append _ _).isInfix

/-- The first of the parts that a text is split into begins it, and the others stand in it. -/
theorem splitOnP_infix (p : Char → Bool) (s : Text) :
    ∃ first rest, s.splitOnP p = first :: rest ∧ first <+: s ∧ ∀ part ∈ rest, part <:+: s := by
  induction s with
  | nil => exact ⟨[], [], List.splitOnP_nil, List.prefix_rfl, nofun⟩
  | cons c s ih =>
    obtain ⟨first, rest, hsplit, hfirst, hrest⟩ := ih
    have hcons : s <:+: c :: s := (List.suffix_cons c s).isInfix
    rw [List.splitOnP_cons_eq_if_modifyHead, hsplit]
    split
    · refine ⟨[], first :: rest, rfl, List.nil_prefix, fun part hpart => ?_⟩
      rcases List.mem_cons.1 hpart with rfl | hpart
      · exact hfirst.isInfix.trans hcons
      · exact (hrest part hpart).trans hcons
    · refine ⟨c :: first, rest, rfl, (List.prefix_cons_inj c).2 hfirst, fun part hpart => ?_⟩
      exact (hrest part hpart).trans hcons

theorem infix_of_mem_lines {s line : Text} (h : line ∈ lines s) : line <:+: s := by
  obtain ⟨first, rest, hsplit, hfirst, hrest⟩ := splitOnP_infix isBreak s
  have hline := (List.mem_filter.1 h).1
  rw [splitlines, hsplit] at hline
  rcases List.mem_cons.1 hline with rfl | hline
  · exact hfirst.isInfix
  · exact hrest line hline

theorem mem_of_mem_lines {s line : Text} {c : Char} (h : line ∈ lines s) (hc : c ∈ line) :
    c ∈ s := (infix_of_mem_lines h).subset hc

theorem strip_eq_nil {s : Text} (h : strip s = []) : ∀ c ∈ s, isSpace c = true := by
  intro c hc
  by_contra hnot
  have hdrop : s.dropWhile isSpace ≠ [] := by
    intro hnil
    exact hnot (List.dropWhile_eq_nil_iff.1 hnil c hc)
  have hhead := List.head_dropWhile_not isSpace hdrop
  have hall := List.rdropWhile_eq_nil_iff.1 h _ (List.head_mem hdrop)
  rw [hhead] at hall
  cases hall

end ResidentCrm.Text
