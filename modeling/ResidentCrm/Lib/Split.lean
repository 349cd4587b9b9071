import ResidentCrm.Lib.Joined

/-!
# Splitting at a text

`str.split(sep)` for a separator of any length. Where the separator cannot overlap itself a text is
split at an occurrence into the pieces of what is before it and of what is after it; joined lines
are split at a line break and a prefix where a line has the prefix.
-/

namespace ResidentCrm.Text

universe u

section

variable {α : Type u} [DecidableEq α]

/-- The pieces of a list of which the first `skip` items belong to a separator. -/
def splitFrom (sep : List α) : (skip : ℕ) → List α → List (List α)
  | _, [] => [[]]
  | skip + 1, _ :: s => splitFrom sep skip s
  | 0, c :: s =>
    if sep.isPrefixOf (c :: s) then [] :: splitFrom sep (sep.length - 1) s
    else (splitFrom sep 0 s).modifyHead (c :: ·)

/-- `s.split(sep)` -/
def split (sep s : List α) : List (List α) := splitFrom sep 0 s

/-- `s.partition(sep)`, without the separator. -/
def partition (sep : List α) : List α → List α × List α
  | [] => ([], [])
  | c :: s =>
    if sep.isPrefixOf (c :: s) then ([], (c :: s).drop sep.length)
    else ((partition sep s).map (c :: ·) id)

theorem splitFrom_ne_nil (sep : List α) : ∀ (skip : ℕ) (s : List α), splitFrom sep skip s ≠ []
  | _, [] => List.cons_ne_nil _ _
  | skip + 1, _ :: s => splitFrom_ne_nil sep skip s
  | 0, c :: s => by
    rw [splitFrom]
    split
    · exact List.cons_ne_nil _ _
    · rw [ne_eq, List.modifyHead_eq_nil_iff]
      exact splitFrom_ne_nil sep 0 s

theorem splitFrom_skip (sep u s : List α) : splitFrom sep u.length (u ++ s) = split sep s := by
  induction u with
  | nil => rfl
  | cons c u ih => exact ih

/-- What has no separator is one piece. -/
theorem split_of_not_infix {sep s : List α} (h : ¬sep <:+: s) : split sep s = [s] := by
  induction s with
  | nil => rfl
  | cons c s ih =>
    have hhere : sep.isPrefixOf (c :: s) = false := by
      rw [← Bool.not_eq_true, List.isPrefixOf_iff_prefix]
      exact fun hstarts => h hstarts.isInfix
    have hrest := ih fun hwithin => h (hwithin.trans (List.suffix_cons c s).isInfix)
    rw [split] at hrest ⊢
    rw [splitFrom, hhere, hrest]
    rfl

omit [DecidableEq α] in
/-- A separator whose first item is not among the others does not reach over into another one. -/
theorem prefix_append_iff {h : α} {tail a b : List α} (hh : h ∉ tail) {c : α} :
    h :: tail <+: c :: (a ++ h :: b) ↔ h :: tail <+: c :: a := by
  constructor
  · intro hstarts
    rcases Nat.lt_or_ge a.length tail.length with hlt | hge
    · obtain ⟨rest, hrest⟩ := hstarts
      have hat := congrArg (fun l => l[a.length + 1]?) hrest
      simp only [List.cons_append, List.getElem?_cons_succ, List.getElem?_append_left hlt,
        List.getElem?_append_right (le_refl a.length), Nat.sub_self,
        List.getElem?_cons_zero] at hat
      exact absurd (List.mem_of_getElem? hat) hh
    · rw [← List.cons_append] at hstarts
      exact List.prefix_of_prefix_length_le hstarts (List.prefix_append _ _) (by simpa using hge)
  · intro hstarts
    rw [← List.cons_append]
    exact hstarts.trans (List.prefix_append _ _)

theorem splitFrom_append {h : α} {tail : List α} (hh : h ∉ tail) (b : List α) :
    ∀ {skip : ℕ} {a : List α}, skip ≤ a.length →
      splitFrom (h :: tail) skip (a ++ h :: tail ++ b) =
        splitFrom (h :: tail) skip a ++ split (h :: tail) b
  | 0, [], _ => by
    have hhere : (h :: tail).isPrefixOf (h :: (tail ++ b)) = true :=
      List.isPrefixOf_iff_prefix.2 (List.prefix_append _ _)
    have hhead : splitFrom (h :: tail) 0 (h :: (tail ++ b)) =
        [] :: splitFrom (h :: tail) tail.length (tail ++ b) := by
      rw [splitFrom, if_pos hhere]
      rfl
    exact hhead.trans (congrArg _ (splitFrom_skip (h :: tail) tail b))
  | skip + 1, c :: a, hle => by
    have hlater : skip ≤ a.length := Nat.le_of_succ_le_succ hle
    have ih := splitFrom_append hh b hlater
    exact ih
  | 0, c :: a, _ => by
    have hhere : (h :: tail).isPrefixOf (c :: (a ++ h :: tail ++ b)) =
        (h :: tail).isPrefixOf (c :: a) := by
      rw [Bool.eq_iff_iff, List.isPrefixOf_iff_prefix, List.isPrefixOf_iff_prefix,
        List.append_assoc, List.cons_append, prefix_append_iff hh]
    rw [List.cons_append, List.cons_append, splitFrom, splitFrom, hhere]
    split
    case isTrue hstarts =>
      have hlength := (List.isPrefixOf_iff_prefix.1 hstarts).length_le
      have hskip : (h :: tail).length - 1 ≤ a.length := by
        simp only [List.length_cons] at hlength ⊢
        omega
      rw [splitFrom_append hh b hskip, List.cons_append]
    case isFalse =>
      rw [splitFrom_append hh b (Nat.zero_le _)]
      obtain ⟨piece, pieces, hpieces⟩ :=
        List.exists_cons_of_ne_nil (splitFrom_ne_nil (h :: tail) 0 a)
      rw [hpieces]
      rfl

/-- **A separator splits** what is before it and what is after it apart. -/
theorem split_append {h : α} {tail : List α} (hh : h ∉ tail) (a b : List α) :
    split (h :: tail) (a ++ h :: tail ++ b) = split (h :: tail) a ++ split (h :: tail) b :=
  splitFrom_append hh b (Nat.zero_le _)

theorem partition_cases (sep s : List α) :
    s = (partition sep s).1 ++ (sep ++ (partition sep s).2) ∨
      (partition sep s).1 = s ∧ (partition sep s).2 = [] := by
  induction s with
  | nil => exact .inr ⟨rfl, rfl⟩
  | cons c s ih =>
    rw [partition]
    split
    case isTrue hstarts =>
      obtain ⟨rest, hrest⟩ := List.isPrefixOf_iff_prefix.1 hstarts
      left
      rw [← hrest, List.drop_left]
      rfl
    case isFalse =>
      rcases ih with ih | ⟨hfirst, hsecond⟩
      · left
        exact congrArg (c :: ·) ih
      · right
        exact ⟨congrArg (c :: ·) hfirst, hsecond⟩

theorem partition_of_not_mem {h : α} (tail : List α) {s : List α} (hs : h ∉ s) :
    partition (h :: tail) s = (s, []) := by
  induction s with
  | nil => rfl
  | cons c s ih =>
    have hhere : (h :: tail).isPrefixOf (c :: s) = false := by
      rw [← Bool.not_eq_true, List.isPrefixOf_iff_prefix, List.cons_prefix_cons]
      rintro ⟨rfl, -⟩
      exact hs List.mem_cons_self
    rw [partition, hhere, if_neg Bool.false_ne_true,
      ih fun hmem => hs (List.mem_cons_of_mem _ hmem)]
    rfl

/-- A text is parted at the first separator. -/
theorem partition_append {h : α} (tail : List α) {s : List α} (hs : h ∉ s) (r : List α) :
    partition (h :: tail) (s ++ (h :: tail ++ r)) = (s, r) := by
  induction s with
  | nil =>
    have hhere : (h :: tail).isPrefixOf (h :: (tail ++ r)) = true :=
      List.isPrefixOf_iff_prefix.2 (List.prefix_append _ _)
    rw [List.nil_append, List.cons_append, partition, if_pos hhere, ← List.cons_append,
      List.drop_left]
  | cons c s ih =>
    have hhere : (h :: tail).isPrefixOf (c :: (s ++ (h :: tail ++ r))) = false := by
      rw [← Bool.not_eq_true, List.isPrefixOf_iff_prefix, List.cons_prefix_cons]
      rintro ⟨rfl, -⟩
      exact hs List.mem_cons_self
    rw [List.cons_append, partition, hhere, if_neg Bool.false_ne_true,
      ih fun hmem => hs (List.mem_cons_of_mem _ hmem)]
    rfl

end

/-! ## Lines -/

theorem splitOn_append_of_not_mem {c : Char} {a : Text} (h : c ∉ a) (b : Text) :
    (a ++ b).splitOn c = (b.splitOn c).modifyHead (a ++ ·) := by
  induction a with
  | nil => cases hb : b.splitOn c <;> simp [hb]
  | cons d a ih =>
    have hd : (d == c) = false := by
      rw [beq_eq_false_iff_ne]
      rintro rfl
      exact h List.mem_cons_self
    rw [List.cons_append, List.splitOn_cons_eq_if_modifyHead, hd, if_neg Bool.false_ne_true,
      ih fun hc => h (List.mem_cons_of_mem _ hc), List.modifyHead_modifyHead]
    rfl

theorem not_mem_splitOn {c : Char} {s piece : Text} (h : piece ∈ s.splitOn c) : c ∉ piece := by
  induction s generalizing piece with
  | nil =>
    rw [List.splitOn_nil, List.mem_singleton] at h
    rw [h]
    exact List.not_mem_nil
  | cons d s ih =>
    obtain ⟨first, rest, hsplit⟩ := List.exists_cons_of_ne_nil (List.splitOn_ne_nil c s)
    rw [List.splitOn_cons_eq_if_modifyHead, hsplit] at h
    rw [hsplit] at ih
    split at h
    · rcases List.mem_cons.1 h with rfl | h
      · exact List.not_mem_nil
      · exact ih h
    · next hne =>
      rw [List.modifyHead_cons] at h
      rcases List.mem_cons.1 h with rfl | h
      · intro hmem
        rcases List.mem_cons.1 hmem with rfl | hmem
        · exact hne (beq_self_eq_true c)
        · exact ih List.mem_cons_self hmem
      · exact ih (List.mem_cons_of_mem _ h)

theorem subset_of_mem_splitOn {c : Char} {s piece : Text} (h : piece ∈ s.splitOn c) :
    piece ⊆ s := by
  induction s generalizing piece with
  | nil =>
    rw [List.splitOn_nil, List.mem_singleton] at h
    rw [h]
    exact List.Subset.refl _
  | cons d s ih =>
    obtain ⟨first, rest, hsplit⟩ := List.exists_cons_of_ne_nil (List.splitOn_ne_nil c s)
    rw [List.splitOn_cons_eq_if_modifyHead, hsplit] at h
    rw [hsplit] at ih
    split at h
    · rcases List.mem_cons.1 h with rfl | h
      · exact List.nil_subset _
      · exact List.subset_cons_of_subset _ (ih h)
    · rw [List.modifyHead_cons] at h
      rcases List.mem_cons.1 h with rfl | h
      · exact List.cons_subset_cons _ (ih List.mem_cons_self)
      · exact List.subset_cons_of_subset _ (ih (List.mem_cons_of_mem _ h))

/-- Lines that are ended. -/
def ended (lines : List Text) : Text := lines.flatMap (· ++ ['\n'])

theorem splitOn_ended {lines : List Text} (h : ∀ l ∈ lines, '\n' ∉ l) (s : Text) :
    (ended lines ++ s).splitOn '\n' = lines ++ s.splitOn '\n' := by
  induction lines with
  | nil => rfl
  | cons line lines ih =>
    have hcut : ended (line :: lines) ++ s = line ++ '\n' :: (ended lines ++ s) := by
      simp [ended]
    rw [hcut, List.splitOn_append_cons_self, List.splitOn_eq_singleton (h line List.mem_cons_self),
      ih fun l hl => h l (List.mem_cons_of_mem _ hl)]
    rfl

/-- A text is its ended lines and what is begun of the next one. -/
theorem exists_splitOn (text : Text) :
    ∃ lines begun, text.splitOn '\n' = lines ++ [begun] ∧ text = ended lines ++ begun ∧
      (∀ l ∈ lines, '\n' ∉ l) ∧ '\n' ∉ begun := by
  obtain ⟨lines, begun, hsplit⟩ : ∃ lines begun, text.splitOn '\n' = lines ++ [begun] := by
    rcases List.eq_nil_or_concat (text.splitOn '\n') with hnil | ⟨lines, begun, hsplit⟩
    · exact absurd hnil (List.splitOn_ne_nil _ _)
    · exact ⟨lines, begun, by rw [hsplit, List.concat_eq_append]⟩
  have hlines : ∀ l ∈ lines ++ [begun], '\n' ∉ l := fun l hl =>
    not_mem_splitOn (hsplit ▸ hl)
  have hbegun : '\n' ∉ begun := hlines begun (by simp)
  have hall : ∀ l ∈ lines, '\n' ∉ l := fun l hl => hlines l (List.mem_append_left _ hl)
  refine ⟨lines, begun, hsplit, ?_, hall, hbegun⟩
  have hsame : (ended lines ++ begun).splitOn '\n' = text.splitOn '\n' := by
    rw [splitOn_ended hall, List.splitOn_eq_singleton hbegun, hsplit]
  have hjoin := congrArg (['\n'].intercalate ·) hsame
  simp only [List.intercalate_splitOn] at hjoin
  exact hjoin.symm

/-- A text that ends inside no line. -/
def EndsAtFeed (text : Text) : Prop := text = [] ∨ text.getLast? = some '\n'

/-- Only what is begun after the last line break counts. -/
theorem endsAtFeed_ended_append (lines : List Text) (s : Text) :
    EndsAtFeed (ended lines ++ s) ↔ EndsAtFeed s := by
  unfold EndsAtFeed
  by_cases hs : s = []
  · rw [hs, List.append_nil]
    refine iff_of_true ?_ (.inl rfl)
    rcases List.eq_nil_or_concat lines with rfl | ⟨earlier, last, rfl⟩
    · exact .inl rfl
    · exact .inr (by simp [ended])
  · rw [List.getLast?_append_of_ne_nil _ hs, List.append_eq_nil_iff, iff_false_intro hs,
      and_false]

theorem endsAtFeed_begun {begun : Text} (h : '\n' ∉ begun) : EndsAtFeed begun ↔ begun = [] :=
  or_iff_left fun hlast => h (List.mem_of_getLast? hlast)

/-- A line is begun where a text ends in no line break. -/
theorem begun_eq_nil_iff {lines : List Text} {begun : Text} (hbegun : '\n' ∉ begun)
    (hne : ended lines ++ begun ≠ []) :
    begun = [] ↔ (ended lines ++ begun).getLast? = some '\n' := by
  rw [← endsAtFeed_begun hbegun, ← endsAtFeed_ended_append lines begun]
  exact or_iff_right hne

/-- The blocks of lines that a line with the prefix starts; its prefix is no part of them. -/
def blocksFrom (mark : Text) : (block : List Text) → List Text → List (List Text)
  | block, [] => [block]
  | block, line :: lines =>
    if mark.isPrefixOf line then block :: blocksFrom mark [line.drop mark.length] lines
    else blocksFrom mark (block ++ [line]) lines

theorem blocksFrom_append {mark : Text} {lines : List Text} (h : ∀ l ∈ lines, ¬mark <+: l)
    (block more : List Text) :
    blocksFrom mark block (lines ++ more) = blocksFrom mark (block ++ lines) more := by
  induction lines generalizing block with
  | nil => rw [List.nil_append, List.append_nil]
  | cons line lines ih =>
    have hline : mark.isPrefixOf line = false := by
      rw [← Bool.not_eq_true, List.isPrefixOf_iff_prefix]
      exact h line List.mem_cons_self
    rw [List.cons_append, blocksFrom, hline, if_neg Bool.false_ne_true,
      ih fun l hl => h l (List.mem_cons_of_mem _ hl), List.append_assoc, List.singleton_append]

/-- A break and the prefix stand before a text without breaks where it has the prefix, or in what is
before the break. -/
theorem break_infix_append {mark a line : Text} (hmark : '\n' ∉ mark) (hline : '\n' ∉ line) :
    '\n' :: mark <:+: a ++ '\n' :: line ↔ '\n' :: mark <:+: a ∨ mark <+: line := by
  induction a with
  | nil =>
    rw [List.nil_append, List.infix_cons_iff, List.cons_prefix_cons]
    constructor
    · rintro (⟨-, hstarts⟩ | hwithin)
      · exact .inr hstarts
      · exact absurd (hwithin.subset List.mem_cons_self) hline
    · rintro (hwithin | hstarts)
      · exact absurd hwithin.length_le (by simp)
      · exact .inl ⟨rfl, hstarts⟩
  | cons c a ih =>
    rw [List.cons_append, List.infix_cons_iff, prefix_append_iff hmark, ih,
      List.infix_cons_iff]
    exact or_assoc.symm

/-- A break and the prefix stand in joined lines where a line but the first has the prefix. -/
theorem break_infix_joinLines {mark : Text} (hmark : '\n' ∉ mark) {block : List Text}
    (hblock : ∀ l ∈ block, '\n' ∉ l) :
    '\n' :: mark <:+: joinLines block ↔ ∃ l ∈ block.tail, mark <+: l := by
  induction block using List.reverseRecOn with
  | nil => simp
  | append_singleton block line ih =>
    have hline : '\n' ∉ line := hblock line (by simp)
    rcases List.eq_nil_or_concat block with rfl | ⟨earlier, last, rfl⟩
    · simp only [List.nil_append, joinLines_singleton, List.tail_cons, List.not_mem_nil, false_and,
        exists_false, iff_false]
      exact fun hwithin => hline (hwithin.subset List.mem_cons_self)
    · rw [List.concat_eq_append] at *
      have hne : earlier ++ [last] ≠ [] := by simp
      have hmore := ih fun l hl => hblock l (List.mem_append_left _ hl)
      rw [joinLines_append hne (List.cons_ne_nil _ _), joinLines_singleton,
        break_infix_append hmark hline, hmore, List.tail_append_of_ne_nil hne]
      simp only [List.mem_append, List.mem_singleton, or_and_right, exists_or, exists_eq_left]

/-- **Joined lines are split** before the lines that have the prefix. -/
theorem split_joinLines {mark : Text} (hmark : '\n' ∉ mark) {lines : List Text} :
    ∀ {block : List Text}, block ≠ [] → (∀ l ∈ block ++ lines, '\n' ∉ l) →
      (∀ l ∈ block.tail, ¬mark <+: l) →
      split ('\n' :: mark) (joinLines (block ++ lines)) =
        (blocksFrom mark block lines).map joinLines := by
  induction lines with
  | nil =>
    intro block hne hlines hblock
    rw [List.append_nil] at hlines ⊢
    refine split_of_not_infix fun hwithin => ?_
    obtain ⟨l, hl, hstarts⟩ := (break_infix_joinLines hmark hlines).1 hwithin
    exact hblock l hl hstarts
  | cons line lines ih =>
    intro block hne hlines hblock
    rw [blocksFrom]
    split
    case isTrue hmarked =>
      obtain ⟨rest, rfl⟩ := List.isPrefixOf_iff_prefix.1 hmarked
      have hbefore : ¬ '\n' :: mark <:+: joinLines block := fun hwithin => by
        obtain ⟨l, hl, hstarts⟩ := (break_infix_joinLines hmark fun l hl =>
          hlines l (List.mem_append_left _ hl)).1 hwithin
        exact hblock l hl hstarts
      have hcut : joinLines (block ++ (mark ++ rest) :: lines) =
          joinLines block ++ '\n' :: mark ++ joinLines (rest :: lines) := by
        rw [joinLines_append hne (List.cons_ne_nil _ _), List.append_assoc, List.cons_append]
        cases lines with
        | nil => rw [joinLines_singleton, joinLines_singleton]
        | cons line lines => rw [joinLines_cons_cons, joinLines_cons_cons, List.append_assoc]
      rw [hcut, split_append hmark, split_of_not_infix hbefore, List.drop_left, List.map_cons]
      refine congrArg _ (ih (List.cons_ne_nil rest []) (fun l hl => ?_) (by simp))
      rcases List.mem_append.1 hl with hl | hl
      · rw [List.mem_singleton.1 hl]
        exact fun hbreak => hlines (mark ++ rest) (by simp) (List.mem_append_right _ hbreak)
      · exact hlines l (List.mem_append_right _ (List.mem_cons_of_mem _ hl))
    case isFalse hplain =>
      rw [List.append_cons]
      refine ih (by simp) (by simpa using hlines) fun l hl => ?_
      rw [List.tail_append_of_ne_nil hne, List.mem_append, List.mem_singleton] at hl
      obtain hl | rfl := hl
      · exact hblock l hl
      · exact fun hstarts => hplain (List.isPrefixOf_iff_prefix.2 hstarts)

/-- The last block: what each line makes of the one before it. -/
def lastBlock (mark : Text) (block : List Text) (line : Text) : List Text :=
  if mark.isPrefixOf line then [line.drop mark.length] else block ++ [line]

theorem blocksFrom_ne_nil (mark : Text) :
    ∀ (block lines : List Text), blocksFrom mark block lines ≠ []
  | _, [] => List.cons_ne_nil _ _
  | block, line :: lines => by
    rw [blocksFrom]
    split
    · exact List.cons_ne_nil _ _
    · exact blocksFrom_ne_nil mark _ lines

theorem getLast?_blocksFrom (mark : Text) : ∀ (block lines : List Text),
    (blocksFrom mark block lines).getLast? = some (lines.foldl (lastBlock mark) block)
  | _, [] => rfl
  | block, line :: lines => by
    rw [blocksFrom, List.foldl_cons, lastBlock]
    split
    · rw [List.getLast?_cons, getLast?_blocksFrom mark _ lines]
      rfl
    · exact getLast?_blocksFrom mark _ lines

/-- The blocks are of lines, and none is empty. -/
theorem mem_blocksFrom {mark : Text} {lines : List Text} : ∀ {block : List Text}, block ≠ [] →
    (∀ l ∈ block ++ lines, '\n' ∉ l) → ∀ b ∈ blocksFrom mark block lines,
      b ≠ [] ∧ ∀ l ∈ b, '\n' ∉ l := by
  induction lines with
  | nil =>
    intro block hne hlines b hb
    rw [List.mem_singleton.1 hb]
    exact ⟨hne, fun l hl => hlines l (List.mem_append_left _ hl)⟩
  | cons line lines ih =>
    intro block hne hlines b hb
    rw [blocksFrom] at hb
    split at hb
    · rcases List.mem_cons.1 hb with rfl | hb
      · exact ⟨hne, fun l hl => hlines l (List.mem_append_left _ hl)⟩
      · refine ih (List.cons_ne_nil (line.drop mark.length) []) (fun l hl => ?_) b hb
        rcases List.mem_append.1 hl with hl | hl
        · rw [List.mem_singleton.1 hl]
          exact fun hbreak => hlines line (by simp) (List.mem_of_mem_drop hbreak)
        · exact hlines l (List.mem_append_right _ (List.mem_cons_of_mem _ hl))
    · exact ih (List.concat_ne_nil _ _) (by simpa using hlines) b hb

end ResidentCrm.Text
