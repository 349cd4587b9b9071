import ResidentCrm.Logs.JsonFields

/-!
# Where a value ends

JSON trees in one line, with any number of spaces before each item and after each colon, as the
value of a string, of a string within a string and so on (`Tree.text`). Such a value ends where
`_value_end` says it does (`valueEnd_text`): a string's quotes stand after a run of backslashes of
another length than those within it.
-/

namespace ResidentCrm.Logs.Redaction

/-! ## Trees -/

mutual

inductive Tree where
  | scalar (v : Scalar)
  | array (items : Items)
  | object (fields : Fields)

/-- Items of an array, each after some spaces. -/
inductive Items where
  | nil
  | cons (spaces : ℕ) (v : Tree) (items : Items)

/-- Items of an object, each after some spaces, and with some after its colon. -/
inductive Fields where
  | nil
  | cons (spaces : ℕ) (key : Text) (after : ℕ) (v : Tree) (fields : Fields)

end

def blanks (n : ℕ) : Text := List.replicate n ' '

section

variable (e : Escaping)

def quoted (s : Text) : Text := '"' :: (s.flatMap e.escape ++ ['"'])

def scalarText : Scalar → Text
  | .string s => quoted e s
  | v => v.dumps

mutual

def Tree.dumps : Tree → Text
  | .scalar v => scalarText e v
  | .array items => '[' :: items.dumps []
  | .object fields => '{' :: fields.dumps []

def Items.dumps (comma : Text) : Items → Text
  | .nil => [']']
  | .cons spaces v items => comma ++ (blanks spaces ++ (v.dumps ++ items.dumps [',']))

def Fields.dumps (comma : Text) : Fields → Text
  | .nil => ['}']
  | .cons spaces key after v fields =>
    comma ++ (blanks spaces ++ (quoted e key ++ (':' :: blanks after ++ (v.dumps ++
      fields.dumps [',']))))

end

/-- The tree within `m` strings. -/
def Tree.text (m : ℕ) (t : Tree) : Text := e.nested m (t.dumps e)

def Items.text (m : ℕ) (comma : Text) (items : Items) : Text := e.nested m (items.dumps e comma)

def Fields.text (m : ℕ) (comma : Text) (fields : Fields) : Text := e.nested m (fields.dumps e comma)

end

/-- The backslashes before a quote within `m` strings. -/
def levelOf (m : ℕ) : ℕ := 2 ^ m - 1

example : ((List.range 4).map levelOf) = [0, 1, 3, 7] := by decide

variable {e : Escaping} {m : ℕ}

/-! ## Their text -/

theorem nested_quote_eq : e.nested m ['"'] = quoteAt (levelOf m) := e.nested_quote m

theorem nested_quoted (s : Text) :
    e.nested m (quoted e s) =
      quoteAt (levelOf m) ++ (e.nested (m + 1) s ++ quoteAt (levelOf m)) := by
  rw [quoted, e.nested_cons, e.nested_append, ← e.nested_succ', nested_quote_eq]

theorem nested_cons_of_printable {c : Char} (hc : 32 ≤ c.toNat ∧ c.toNat < 127)
    (hquote : c ≠ '"') (hback : c ≠ '\\') (s : Text) : e.nested m (c :: s) = c :: e.nested m s := by
  have hfixed := e.printable c hc.1 hc.2 hquote hback
  rw [e.nested_cons, e.nested_of_fixed fun d hd => List.mem_singleton.1 hd ▸ hfixed]
  rfl

theorem nested_blanks (n : ℕ) : e.nested m (blanks n) = blanks n := by
  refine e.nested_of_fixed (fun c hc => ?_) m
  rw [List.eq_of_mem_replicate hc]
  exact e.printable ' ' (by decide) (by decide) (by decide) (by decide)

theorem text_string (s : Text) :
    (Tree.scalar (.string s)).text e m =
      quoteAt (levelOf m) ++ (e.nested (m + 1) s ++ quoteAt (levelOf m)) := nested_quoted s

theorem text_array (items : Items) : (Tree.array items).text e m = '[' :: items.text e m [] :=
  nested_cons_of_printable (by decide) (by decide) (by decide) _

theorem text_object (fields : Fields) :
    (Tree.object fields).text e m = '{' :: fields.text e m [] :=
  nested_cons_of_printable (by decide) (by decide) (by decide) _

/-- A scalar that is no string is written in characters that nothing escapes. -/
theorem isPlain_dumps {v : Scalar} (hv : ∀ s, v ≠ .string s) :
    ∀ c ∈ v.dumps, (c.isAlphanum || c ∈ ['-', '+', '.']) = true := by
  cases v with
  | null => exact Text.forall_of_all (by decide)
  | bool b => cases b <;> exact Text.forall_of_all (by decide)
  | number n =>
    intro c hc
    have hnumeric := n.numeric c hc
    simp only [isNumeric, Bool.or_eq_true, decide_eq_true_eq] at hnumeric
    rcases hnumeric with ((((hdigit | rfl) | rfl) | rfl) | rfl) | rfl
    · rw [Char.isAlphanum, hdigit, Bool.or_true, Bool.true_or]
    · decide
    · decide
    · decide
    · decide
    · decide
  | nonFinite x => cases x <;> exact Text.forall_of_all (by decide)
  | string s => exact absurd rfl (hv s)

theorem isSpace_of_isPlain {c : Char} (h : (c.isAlphanum || c ∈ ['-', '+', '.']) = true) :
    Text.isSpace c = false := by
  have hrange : 43 ≤ c.toNat ∧ c.toNat ≤ 122 := by
    rcases Bool.or_eq_true_iff.1 h with halnum | hmark
    · have hcode := toNat_of_isAlphanum halnum
      omega
    · have hall : ∀ d ∈ ['-', '+', '.'], 43 ≤ d.toNat ∧ d.toNat ≤ 122 :=
        Text.forall_of_all (by decide)
      exact hall c (of_decide_eq_true hmark)
  simp only [Text.isSpace, Bool.or_eq_false_iff, Bool.and_eq_false_iff, decide_eq_false_iff_not]
  omega

theorem escape_of_isPlain {c : Char} (h : (c.isAlphanum || c ∈ ['-', '+', '.']) = true) :
    e.escape c = [c] := by
  rcases Bool.or_eq_true_iff.1 h with halnum | hmark
  · exact e.escape_alphanum halnum
  · have hmem := of_decide_eq_true hmark
    simp only [List.mem_cons, List.not_mem_nil, or_false] at hmem
    rcases hmem with rfl | rfl | rfl
    all_goals exact e.printable _ (by decide) (by decide) (by decide) (by decide)

theorem text_scalar {v : Scalar} (hv : ∀ s, v ≠ .string s) :
    (Tree.scalar v).text e m = v.dumps := by
  have hdumps : (Tree.scalar v).dumps e = v.dumps := by
    cases v with
    | string s => exact absurd rfl (hv s)
    | _ => rfl
  rw [Tree.text, hdumps]
  exact e.nested_of_fixed (fun c hc => escape_of_isPlain (isPlain_dumps hv c hc)) m

theorem text_nil (comma : Text) : Items.nil.text e m comma = [']'] := by
  rw [Items.text, Items.dumps, nested_cons_of_printable (by decide) (by decide) (by decide),
    e.nested_nil]

theorem nested_comma {comma : Text} (h : ∀ c ∈ comma, c = ',') : e.nested m comma = comma := by
  refine e.nested_of_fixed (fun c hc => ?_) m
  rw [h c hc]
  exact e.printable ',' (by decide) (by decide) (by decide) (by decide)

theorem text_cons {comma : Text} (h : ∀ c ∈ comma, c = ',') (spaces : ℕ) (v : Tree)
    (items : Items) : (Items.cons spaces v items).text e m comma =
      comma ++ (blanks spaces ++ (v.text e m ++ items.text e m [','])) := by
  rw [Items.text, Items.dumps, e.nested_append, e.nested_append, e.nested_append, nested_comma h,
    nested_blanks]
  rfl

theorem text_noFields (comma : Text) : Fields.nil.text e m comma = ['}'] := by
  rw [Fields.text, Fields.dumps, nested_cons_of_printable (by decide) (by decide) (by decide),
    e.nested_nil]

/-- A field up to its value, and the value. -/
def fieldText (e : Escaping) (m : ℕ) (key : Text) (after : ℕ) (value : Text) : Text :=
  quoteAt (levelOf m) ++ (e.nested (m + 1) key ++
    (quoteAt (levelOf m) ++ (':' :: blanks after ++ value)))

theorem text_field {comma : Text} (h : ∀ c ∈ comma, c = ',') (spaces : ℕ) (key : Text)
    (after : ℕ) (v : Tree) (fields : Fields) :
    (Fields.cons spaces key after v fields).text e m comma =
      comma ++ (blanks spaces ++ (fieldText e m key after (v.text e m) ++
        fields.text e m [','])) := by
  have hcolon : e.nested m (':' :: blanks after) = ':' :: blanks after := by
    rw [nested_cons_of_printable (by decide) (by decide) (by decide), nested_blanks]
  rw [Fields.text, Fields.dumps, e.nested_append, e.nested_append, e.nested_append,
    e.nested_append, e.nested_append, nested_comma h, nested_blanks, nested_quoted, hcolon,
    fieldText]
  simp only [List.append_assoc]
  rfl

theorem dumps_ne_nil (v : Scalar) : v.dumps ≠ [] := by
  obtain ⟨c, l, hv, -⟩ := v.dumps_eq_cons
  rw [hv]
  exact List.cons_ne_nil _ _

theorem quoteAt_eq_cons (level : ℕ) : ∃ c s, quoteAt level = c :: s ∧ (c = '"' ∨ c = '\\') := by
  cases level with
  | zero => exact ⟨'"', [], rfl, .inl rfl⟩
  | succ level => exact ⟨'\\', List.replicate level '\\' ++ ['"'], rfl, .inr rfl⟩

/-- A value does not begin with a space. -/
theorem head_text (t : Tree) : ∃ c s, t.text e m = c :: s ∧ Text.isSpace c = false := by
  cases t with
  | scalar v =>
    by_cases hv : ∀ s, v ≠ .string s
    · obtain ⟨c, s, hs⟩ := List.exists_cons_of_ne_nil (dumps_ne_nil v)
      refine ⟨c, s, by rw [text_scalar hv, hs], isSpace_of_isPlain (isPlain_dumps hv c ?_)⟩
      rw [hs]
      exact List.mem_cons_self
    · simp only [not_forall, not_not] at hv
      obtain ⟨s, rfl⟩ := hv
      obtain ⟨c, t, ht, hc⟩ := quoteAt_eq_cons (levelOf m)
      refine ⟨c, t ++ (e.nested (m + 1) s ++ quoteAt (levelOf m)), by rw [text_string, ht]; rfl, ?_⟩
      rcases hc with rfl | rfl
      all_goals rfl
  | array items => exact ⟨'[', _, text_array items, rfl⟩
  | object fields => exact ⟨'{', _, text_object fields, rfl⟩

/-! ## The end of a string -/

theorem stringEnd_replicate (level run k : ℕ) (s : Text) :
    stringEnd level run (List.replicate k '\\' ++ s) = k + stringEnd level (run + k) s := by
  induction k generalizing run with
  | zero => rw [Nat.zero_add, Nat.add_zero]; rfl
  | succ k ih =>
    rw [List.replicate_succ, List.cons_append, stringEnd, if_neg (by decide), if_pos rfl, ih]
    rw [Nat.add_right_comm run 1 k, Nat.add_comm 1, Nat.add_right_comm k]
    rfl

theorem stringEnd_other {level run : ℕ} {x s : Text} (hne : x ≠ []) (hquote : '"' ∉ x)
    (hlast : x.getLast? ≠ some '\\') :
    stringEnd level run (x ++ s) = x.length + stringEnd level 0 s := by
  induction x generalizing run with
  | nil => exact absurd rfl hne
  | cons c x ih =>
    rw [List.mem_cons, not_or] at hquote
    rw [List.cons_append, stringEnd, if_neg (Ne.symm hquote.1), List.length_cons]
    cases x with
    | nil =>
      have hc : c ≠ '\\' := fun hc => hlast (congrArg some hc)
      rw [if_neg hc]
      rfl
    | cons d x =>
      rw [ih (List.cons_ne_nil _ _) hquote.2 hlast, Nat.add_comm _ 1, Nat.add_assoc]

theorem period_levelOf : 2 * (levelOf m + 1) = 2 ^ (m + 1) := by
  rw [levelOf, Nat.sub_add_cancel (Nat.two_pow_pos m), Nat.pow_succ']

theorem levelOf_lt : levelOf m < 2 ^ (m + 1) := by
  rw [← @period_levelOf m]
  omega

theorem delimits_iff {run : ℕ} :
    delimits (levelOf m) run = true ↔ run % 2 ^ (m + 1) = levelOf m := by
  rw [delimits, period_levelOf, decide_eq_true_iff]

theorem delimits_closing {run : ℕ} (hrun : run % 2 ^ (m + 1) = 0) :
    delimits (levelOf m) (run + levelOf m) = true := by
  rw [delimits_iff, Nat.add_mod, hrun, Nat.zero_add, Nat.mod_mod, Nat.mod_eq_of_lt levelOf_lt]

/-- A quote within the string is after too many backslashes. -/
theorem not_delimits_within {run : ℕ} (hrun : run % 2 ^ (m + 1) = 0) :
    ¬ delimits (levelOf m) (run + (2 ^ (m + 1) - 1)) = true := by
  have hperiod := @period_levelOf m
  rw [delimits_iff, Nat.add_mod, hrun, Nat.zero_add, Nat.mod_mod, Nat.mod_eq_of_lt (by omega)]
  omega

/-- **A string ends with its closing quote.** -/
theorem stringEnd_nested {run : ℕ} (hrun : run % 2 ^ (m + 1) = 0) (s r : Text) :
    stringEnd (levelOf m) run (e.nested (m + 1) s ++ (quoteAt (levelOf m) ++ r)) =
      (e.nested (m + 1) s).length + (levelOf m + 1) := by
  induction s generalizing run with
  | nil =>
    rw [e.nested_nil, List.nil_append, quoteAt_append, stringEnd_replicate, stringEnd, if_pos rfl,
      if_pos (delimits_closing hrun), List.length_nil, Nat.zero_add]
  | cons c s ih =>
    rw [e.nested_cons, List.append_assoc, List.length_append]
    by_cases hquote : c = '"'
    · rw [hquote, e.nested_quote, List.append_assoc, List.singleton_append, stringEnd_replicate,
        stringEnd, if_pos rfl, if_neg (not_delimits_within hrun), ih (Nat.zero_mod _),
        List.length_append, List.length_replicate, List.length_singleton]
      omega
    by_cases hback : c = '\\'
    · rw [hback, e.nested_backslash, stringEnd_replicate,
        ih (by rw [Nat.add_mod_right, hrun]), List.length_replicate, Nat.add_assoc]
    · have hother := e.nested_other_ends (m + 1) hquote hback
      rw [stringEnd_other (e.nested_ne_nil _ _) hother.1 hother.2, ih (Nat.zero_mod _),
        Nat.add_assoc]

/-! ## The end of a container -/

theorem containerEnd_skip (level depth : ℕ) (p s : Text) :
    containerEnd level p.length depth 0 (p ++ s) =
      p.length + containerEnd level 0 depth 0 s := by
  induction p with
  | nil => exact (Nat.zero_add _).symm
  | cons c p ih =>
    rw [List.cons_append, List.length_cons, containerEnd, ih, Nat.add_comm p.length 1,
      Nat.add_assoc]

/-- Characters that are no quotes, backslashes or brackets. -/
theorem containerEnd_plain {level depth : ℕ} {p : Text}
    (h : ∀ c ∈ p, c ∉ ['"', '\\', '{', '[', '}', ']']) (s : Text) :
    containerEnd level 0 depth 0 (p ++ s) = p.length + containerEnd level 0 depth 0 s := by
  induction p with
  | nil => exact (Nat.zero_add _).symm
  | cons c p ih =>
    have hc := h c List.mem_cons_self
    simp only [List.mem_cons, List.not_mem_nil, or_false, not_or] at hc
    obtain ⟨hquote, hback, hbrace, hbracket, hbrace', hbracket'⟩ := hc
    rw [List.cons_append, containerEnd, if_neg fun h => hquote h.1,
      if_neg (by simp [hbrace, hbracket]), if_neg (by simp [hbrace', hbracket']), if_neg hback,
      ih fun d hd => h d (List.mem_cons_of_mem _ hd), List.length_cons, Nat.add_comm p.length 1,
      Nat.add_assoc]

theorem containerEnd_replicate (level depth run k : ℕ) (s : Text) :
    containerEnd level 0 depth run (List.replicate k '\\' ++ s) =
      k + containerEnd level 0 depth (run + k) s := by
  induction k generalizing run with
  | zero => exact (Nat.zero_add _).symm
  | succ k ih =>
    rw [List.replicate_succ, List.cons_append, containerEnd, if_neg fun h => absurd h.1 (by decide),
      if_neg (by decide), if_neg (by decide), if_pos rfl, ih, Nat.add_right_comm run 1 k,
      ← Nat.add_assoc, Nat.add_comm 1 k]
    rfl

/-- A string is skipped. -/
theorem containerEnd_string (depth : ℕ) (s r : Text) :
    containerEnd (levelOf m) 0 depth 0
        (quoteAt (levelOf m) ++ (e.nested (m + 1) s ++ (quoteAt (levelOf m) ++ r))) =
      (quoteAt (levelOf m) ++ (e.nested (m + 1) s ++ quoteAt (levelOf m))).length +
        containerEnd (levelOf m) 0 depth 0 r := by
  have hopens : delimits (levelOf m) (0 + levelOf m) = true := delimits_closing (Nat.zero_mod _)
  have hend := @stringEnd_nested e m 0 (Nat.zero_mod _) s r
  have hlength : (quoteAt (levelOf m)).length = levelOf m + 1 := by
    rw [quoteAt, List.length_append, List.length_replicate, List.length_singleton]
  have hskip := containerEnd_skip (levelOf m) depth
    (e.nested (m + 1) s ++ quoteAt (levelOf m)) r
  rw [List.length_append, hlength, ← hend, List.append_assoc] at hskip
  rw [quoteAt_append (levelOf m) (e.nested (m + 1) s ++ _), containerEnd_replicate, containerEnd,
    if_pos ⟨rfl, hopens⟩, hskip, hend]
  simp only [List.length_append, hlength]
  omega

/-- The rest of a container that is closed, where it is not the outermost one. -/
def afterClosing (level depth : ℕ) (s : Text) : ℕ :=
  if depth = 0 then 0 else containerEnd level 0 depth 0 s

theorem containerEnd_closing {level depth run : ℕ} {c : Char} (hc : c = ']' ∨ c = '}') (s : Text) :
    containerEnd level 0 (depth + 1) run (c :: s) = 1 + afterClosing level depth s := by
  have hmarks : ¬ (c = '"' ∧ delimits level run = true) ∧ c ∉ ['{', '['] ∧ c ∈ ['}', ']'] := by
    rcases hc with rfl | rfl
    all_goals exact ⟨fun h => absurd h.1 (by decide), by decide, by decide⟩
  rw [containerEnd, if_neg hmarks.1, if_neg hmarks.2.1, if_pos hmarks.2.2, afterClosing]
  cases depth with
  | zero => rfl
  | succ depth => rw [if_neg (by omega), if_neg (Nat.succ_ne_zero _), Nat.add_sub_cancel]

theorem containerEnd_opening {level depth run : ℕ} {c : Char} (hc : c = '[' ∨ c = '{') (s : Text) :
    containerEnd level 0 depth run (c :: s) = 1 + containerEnd level 0 (depth + 1) 0 s := by
  have hmarks : ¬ (c = '"' ∧ delimits level run = true) ∧ c ∈ ['{', '['] := by
    rcases hc with rfl | rfl
    all_goals exact ⟨fun h => absurd h.1 (by decide), by decide⟩
  rw [containerEnd, if_neg hmarks.1, if_pos hmarks.2]

theorem plain_comma {comma : Text} (h : ∀ c ∈ comma, c = ',') :
    ∀ c ∈ comma, c ∉ ['"', '\\', '{', '[', '}', ']'] := by
  intro c hc
  rw [h c hc]
  decide

theorem plain_blanks (n : ℕ) : ∀ c ∈ blanks n, c ∉ ['"', '\\', '{', '[', '}', ']'] := by
  intro c hc
  rw [List.eq_of_mem_replicate hc]
  decide

theorem comma_nil : ∀ c ∈ ([] : Text), c = ',' := fun _ hc => absurd hc List.not_mem_nil

theorem comma_singleton : ∀ c ∈ [','], c = ',' := fun _ => List.mem_singleton.1

mutual

/-- A value within a container is passed. -/
theorem containerEnd_value (depth : ℕ) (t : Tree) (s : Text) :
    containerEnd (levelOf m) 0 (depth + 1) 0 (t.text e m ++ s) =
      (t.text e m).length + containerEnd (levelOf m) 0 (depth + 1) 0 s := by
  cases t with
  | scalar v =>
    by_cases hv : ∀ s, v ≠ .string s
    · rw [text_scalar hv]
      refine containerEnd_plain (fun c hc hmark => ?_) s
      have hplain := isPlain_dumps hv c hc
      simp only [List.mem_cons, List.not_mem_nil, or_false] at hmark
      rcases hmark with rfl | rfl | rfl | rfl | rfl | rfl
      all_goals exact absurd hplain (by decide)
    · simp only [not_forall, not_not] at hv
      obtain ⟨t, rfl⟩ := hv
      rw [text_string, List.append_assoc, List.append_assoc]
      exact containerEnd_string (depth + 1) t s
  | array items =>
    rw [text_array, List.cons_append, containerEnd_opening (.inl rfl),
      containerEnd_items (depth + 1) comma_nil items, afterClosing, if_neg (Nat.succ_ne_zero _),
      List.length_cons]
    omega
  | object fields =>
    rw [text_object, List.cons_append, containerEnd_opening (.inr rfl),
      containerEnd_fields (depth + 1) comma_nil fields, afterClosing, if_neg (Nat.succ_ne_zero _),
      List.length_cons]
    omega

theorem containerEnd_items (depth : ℕ) {comma : Text} (h : ∀ c ∈ comma, c = ',') (items : Items)
    (s : Text) : containerEnd (levelOf m) 0 (depth + 1) 0 (items.text e m comma ++ s) =
      (items.text e m comma).length + afterClosing (levelOf m) depth s := by
  cases items with
  | nil =>
    rw [text_nil, List.singleton_append, containerEnd_closing (.inl rfl)]
    rfl
  | cons spaces v items =>
    rw [text_cons h, List.append_assoc, List.append_assoc, List.append_assoc,
      containerEnd_plain (plain_comma h), containerEnd_plain (plain_blanks spaces),
      containerEnd_value depth v, containerEnd_items depth comma_singleton items]
    simp only [List.length_append]
    omega

theorem containerEnd_fields (depth : ℕ) {comma : Text} (h : ∀ c ∈ comma, c = ',') (fields : Fields)
    (s : Text) : containerEnd (levelOf m) 0 (depth + 1) 0 (fields.text e m comma ++ s) =
      (fields.text e m comma).length + afterClosing (levelOf m) depth s := by
  cases fields with
  | nil =>
    rw [text_noFields, List.singleton_append, containerEnd_closing (.inr rfl)]
    rfl
  | cons spaces key after v fields =>
    have hcolon : ∀ c ∈ ':' :: blanks after, c ∉ ['"', '\\', '{', '[', '}', ']'] :=
      List.forall_mem_cons.2 ⟨by decide, plain_blanks after⟩
    rw [text_field h, fieldText]
    simp only [List.append_assoc]
    rw [containerEnd_plain (plain_comma h), containerEnd_plain (plain_blanks spaces),
      containerEnd_string, containerEnd_plain hcolon, containerEnd_value depth v,
      containerEnd_fields depth comma_singleton fields]
    simp only [List.length_append]
    omega

end

/-! ## The end of a value -/

/-- The values that are replaced: all but null, booleans, and strings that are empty or replaced
already. -/
def Tree.isReplaced : Tree → Bool
  | .scalar .null => false
  | .scalar (.bool _) => false
  | .scalar (.string s) => s ≠ [] && !redactedMark.isPrefixOf s
  | _ => true

theorem levelOf_mem (hm : m ≤ 3) : levelOf m ∈ escapeLevels := by
  have hall : ∀ k < 4, levelOf k ∈ escapeLevels := by decide
  exact hall m (Nat.lt_succ_of_le hm)

theorem afterPrefix_cons_of_plain {level : ℕ} {c : Char} (hquote : c ≠ '"') (hback : c ≠ '\\')
    (s : Text) : afterPrefix (quoteAt level) (c :: s) = none := by
  rw [afterPrefix, if_neg]
  intro hprefix
  obtain ⟨t, ht⟩ := List.isPrefixOf_iff_prefix.1 hprefix
  rw [quoteAt_append] at ht
  exact Escaping.cons_ne_run hquote hback ht.symm

theorem valueEnd_container {level : ℕ} (hlevel : level ∈ escapeLevels) {c : Char}
    (hc : c = '[' ∨ c = '{') (s : Text) :
    valueEnd level (c :: s) = some (1 + containerEnd level 0 1 0 s) := by
  have hplain : c ≠ '"' ∧ c ≠ '\\' := by
    rcases hc with rfl | rfl
    all_goals exact ⟨by decide, by decide⟩
  have hhead : (c :: s).head? = some '{' ∨ (c :: s).head? = some '[' :=
    hc.symm.imp (congrArg some) (congrArg some)
  rw [valueEnd, if_neg (not_or.2 ⟨not_not.2 hlevel, List.cons_ne_nil _ _⟩),
    afterPrefix_cons_of_plain hplain.1 hplain.2]
  dsimp only
  rw [if_pos hhead, containerEnd_opening hc]

/-- The scalars that are left alone. -/
def leftScalars : List Text := ["null".toList, "true".toList, "false".toList]

theorem valueEnd_scalar {level : ℕ} (hlevel : level ∈ escapeLevels) {w s : Text} (hne : w ≠ [])
    (hw : ∀ c ∈ w, (c.isAlphanum || c ∈ ['-', '+', '.']) = true)
    (hs : (w ++ s).takeWhile isScalar = w) :
    valueEnd level (w ++ s) = if Text.lower w ∈ leftScalars then none else some w.length := by
  obtain ⟨c, w', rfl⟩ := List.exists_cons_of_ne_nil hne
  have hc := hw c List.mem_cons_self
  have hplain : c ≠ '"' ∧ c ≠ '\\' ∧ c ≠ '{' ∧ c ≠ '[' := by
    refine ⟨?_, ?_, ?_, ?_⟩
    all_goals
      rintro rfl
      exact absurd hc (by decide)
  rw [List.cons_append] at hs ⊢
  rw [valueEnd, if_neg (not_or.2 ⟨not_not.2 hlevel, List.cons_ne_nil _ _⟩),
    afterPrefix_cons_of_plain hplain.1 hplain.2.1]
  dsimp only
  rw [if_neg (by simp [hplain.2.2]), hs]
  simp only [List.cons_ne_nil, false_or]
  rfl

theorem isScalar_of_isPlain {c : Char} (h : (c.isAlphanum || c ∈ ['-', '+', '.']) = true) :
    isScalar c = true := by
  have hmark : c ∉ [',', '}', ']', '\\', '"'] := by
    simp only [List.mem_cons, List.not_mem_nil, or_false, not_or]
    refine ⟨?_, ?_, ?_, ?_, ?_⟩
    all_goals
      rintro rfl
      exact absurd h (by decide)
  rw [isScalar, decide_eq_false hmark, isSpace_of_isPlain h]
  rfl

theorem takeWhile_scalar {v : Scalar} (hv : ∀ s, v ≠ .string s) {s : Text}
    (hs : ∃ c s', s = c :: s' ∧ isScalar c = false) :
    (v.dumps ++ s).takeWhile isScalar = v.dumps := by
  obtain ⟨c, s, rfl, hc⟩ := hs
  rw [List.takeWhile_append_of_pos fun d hd => isScalar_of_isPlain (isPlain_dumps hv d hd),
    List.takeWhile_cons_of_neg (Bool.not_eq_true _ ▸ hc), List.append_nil]

/-- No number is one of the words that are left alone. -/
theorem lower_number (n : Number) : Text.lower n.repr ∉ leftScalars := by
  obtain ⟨c, l, hl⟩ := List.exists_cons_of_ne_nil n.ne_nil
  have hnumeric : isNumeric c = true := n.numeric c (hl ▸ List.mem_cons_self)
  have hcode : c.toNat ≠ 0x130 ∧ c.toNat ≠ 0x212a := by
    have hplain := isNumeric_plain hnumeric
    omega
  have hlower : isNumeric c.toLower = true := by
    simp only [isNumeric, Bool.or_eq_true, decide_eq_true_eq] at hnumeric
    rcases hnumeric with ((((hdigit | rfl) | rfl) | rfl) | rfl) | rfl
    · have hhigh : c.toNat ≤ 57 := (Char.isDigit_iff_toNat.1 hdigit).2
      rw [(Text.toLower_cases c).resolve_right (by omega), isNumeric, hdigit]
      rfl
    all_goals decide
  have hfirst : ∀ w ∈ leftScalars, w.head? ≠ some c.toLower := by
    intro w hw hhead
    have hnone : ∀ w ∈ leftScalars, w.head?.all (!isNumeric ·) = true := by decide
    have hfalse := hnone w hw
    rw [hhead, Option.all_some, hlower] at hfalse
    cases hfalse
  intro hmem
  refine hfirst _ hmem ?_
  rw [hl, Text.lower, List.flatMap_cons, if_neg hcode.1, if_neg hcode.2]
  rfl

theorem lower_nonFinite (x : NonFinite) : Text.lower x.repr ∉ leftScalars := by
  cases x <;> decide

/-- Where a string ends that is a value. -/
theorem valueEnd_string (hm : m ≤ 3) (s r : Text) :
    valueEnd (levelOf m)
        (quoteAt (levelOf m) ++ (e.nested (m + 1) s ++ (quoteAt (levelOf m) ++ r))) =
      if (Tree.scalar (.string s)).isReplaced = true then
        some (quoteAt (levelOf m) ++ (e.nested (m + 1) s ++ quoteAt (levelOf m))).length
      else none := by
  have hmark : redactedMark.isPrefixOf (e.nested (m + 1) s ++ (quoteAt (levelOf m) ++ r)) =
      redactedMark.isPrefixOf s := by
    rw [Bool.eq_iff_iff, List.isPrefixOf_iff_prefix, List.isPrefixOf_iff_prefix]
    constructor
    · rintro ⟨z, hz⟩
      rw [← nested_quote_eq (e := e)] at hz
      obtain ⟨-, s', rfl, -⟩ := e.nested_eq_append (Text.forall_of_all (by decide)) hz.symm
      exact List.prefix_append _ _
    · rintro ⟨s', rfl⟩
      have hfixed : ∀ c ∈ redactedMark, e.escape c = [c] := by
        have hplain : ∀ c ∈ redactedMark,
            32 ≤ c.toNat ∧ c.toNat < 127 ∧ c ≠ '"' ∧ c ≠ '\\' :=
          Text.forall_of_all (by decide)
        intro c hc
        obtain ⟨hlow, hhigh, hquote, hback⟩ := hplain c hc
        exact e.printable c hlow hhigh hquote hback
      rw [e.nested_append, e.nested_of_fixed hfixed, List.append_assoc]
      exact List.prefix_append _ _
  have hne : quoteAt (levelOf m) ++ (e.nested (m + 1) s ++ (quoteAt (levelOf m) ++ r)) ≠ [] := by
    obtain ⟨c, t, ht, -⟩ := quoteAt_eq_cons (levelOf m)
    rw [ht]
    exact List.cons_ne_nil _ _
  rw [valueEnd, if_neg (not_or.2 ⟨not_not.2 (levelOf_mem hm), hne⟩), afterPrefix_append]
  dsimp only
  rw [hmark, stringEnd_nested (Nat.zero_mod _)]
  cases s with
  | nil =>
    rw [e.nested_nil, if_neg (by decide), if_pos (by rw [List.length_nil]; omega)]
    rfl
  | cons c s =>
    have hlong : 0 < (e.nested (m + 1) (c :: s)).length := by
      rw [e.nested_cons, List.length_append]
      exact Nat.add_pos_left (List.length_pos_iff.2 (e.nested_ne_nil _ _)) _
    have hquote : (quoteAt (levelOf m)).length = levelOf m + 1 := by
      rw [quoteAt, List.length_append, List.length_replicate, List.length_singleton]
    have hlength : (quoteAt (levelOf m) ++
        (e.nested (m + 1) (c :: s) ++ quoteAt (levelOf m))).length =
          levelOf m + 1 + ((e.nested (m + 1) (c :: s)).length + (levelOf m + 1)) := by
      rw [List.length_append, List.length_append, hquote]
    rw [hlength, if_neg (by omega : ¬ (e.nested (m + 1) (c :: s)).length + (levelOf m + 1) =
      1 + levelOf m)]
    simp only [Tree.isReplaced, ne_eq, reduceCtorEq, not_false_eq_true, decide_true, Bool.true_and,
      Bool.not_eq_true']
    cases redactedMark.isPrefixOf (c :: s) <;> rfl

/-- **Where a value ends**; what follows it begins with no character of a number. -/
theorem valueEnd_text (hm : m ≤ 3) (t : Tree) {s : Text}
    (hs : ∃ c s', s = c :: s' ∧ isScalar c = false) :
    valueEnd (levelOf m) (t.text e m ++ s) =
      if t.isReplaced = true then some (t.text e m).length else none := by
  have hlevel := levelOf_mem hm
  cases t with
  | scalar v =>
    by_cases hv : ∀ s, v ≠ .string s
    · rw [text_scalar hv, valueEnd_scalar hlevel (dumps_ne_nil v) (isPlain_dumps hv)
        (takeWhile_scalar hv hs)]
      cases v with
      | null => rfl
      | bool b => cases b <;> rfl
      | number n => exact (if_neg (lower_number n)).trans (if_pos rfl).symm
      | nonFinite x => exact (if_neg (lower_nonFinite x)).trans (if_pos rfl).symm
      | string s => exact absurd rfl (hv s)
    · simp only [not_forall, not_not] at hv
      obtain ⟨t, rfl⟩ := hv
      rw [text_string, List.append_assoc, List.append_assoc]
      exact valueEnd_string hm t s
  | array items =>
    rw [text_array, List.cons_append, valueEnd_container hlevel (.inl rfl),
      containerEnd_items 0 comma_nil items, List.length_cons, Nat.add_comm 1]
    rfl
  | object fields =>
    rw [text_object, List.cons_append, valueEnd_container hlevel (.inr rfl),
      containerEnd_fields 0 comma_nil fields, List.length_cons, Nat.add_comm 1]
    rfl

end ResidentCrm.Logs.Redaction
