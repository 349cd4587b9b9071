import ResidentCrm.Lib.Split
import ResidentCrm.Logs.JsonTrees

/-!
# What redaction makes of a tree

`redact_json_fields` of a JSON tree in a text: the value of each sensitive key is replaced, unless
it stands in a value that is, and everything else is copied (`redacts_exactly`). That needs that no
string of the tree holds a key in quotes, and a tree that is itself a string is a key where it
spells one and a colon follows it (`string_read_as_key`).
-/

namespace ResidentCrm.Logs.Redaction

variable (e : Escaping) (keys : List Text)

/-! ## The redacted tree -/

/-- A key that is spelled as it is written. -/
def isSensitive (key : Text) : Bool := isSpelled keys (key.flatMap e.escape)

def redactedTree : Tree := .scalar (.string (placeholder jsonFieldLabel))

mutual

def Tree.redacted : Tree → Tree
  | .scalar v => .scalar v
  | .array items => .array items.redacted
  | .object fields => .object fields.redacted

def Items.redacted : Items → Items
  | .nil => .nil
  | .cons spaces v items => .cons spaces v.redacted items.redacted

def Fields.redacted : Fields → Fields
  | .nil => .nil
  | .cons spaces key after v fields =>
    .cons spaces key after
      (if isSensitive e keys key && v.isReplaced then redactedTree else v.redacted) fields.redacted

end

mutual

/-- How many values are replaced. -/
def Tree.hits : Tree → ℕ
  | .scalar _ => 0
  | .array items => items.hits
  | .object fields => fields.hits

def Items.hits : Items → ℕ
  | .nil => 0
  | .cons _ v items => v.hits + items.hits

def Fields.hits : Fields → ℕ
  | .nil => 0
  | .cons _ key _ v fields =>
    (if isSensitive e keys key && v.isReplaced then 1 else v.hits) + fields.hits

end

mutual

def Tree.keys : Tree → List Text
  | .scalar _ => []
  | .array items => items.keys
  | .object fields => fields.keys

def Items.keys : Items → List Text
  | .nil => []
  | .cons _ v items => v.keys ++ items.keys

def Fields.keys : Fields → List Text
  | .nil => []
  | .cons _ key _ v fields => key :: (v.keys ++ fields.keys)

end

mutual

def Tree.strings : Tree → List Text
  | .scalar (.string s) => [s]
  | .scalar _ => []
  | .array items => items.strings
  | .object fields => fields.strings

def Items.strings : Items → List Text
  | .nil => []
  | .cons _ v items => v.strings ++ items.strings

def Fields.strings : Fields → List Text
  | .nil => []
  | .cons _ _ _ v fields => v.strings ++ fields.strings

end

/-- A sensitive key in quotes, each after as many backslashes. -/
def HoldsKey (s : Text) : Prop :=
  ∃ level key, isSensitive e keys key = true ∧ quoteAt level ++ (key ++ quoteAt level) <:+: s

variable {e keys} {m : ℕ}

theorem HoldsKey.mono {s t : Text} (hst : s <:+: t) (h : HoldsKey e keys s) :
    HoldsKey e keys t := by
  obtain ⟨level, key, hkey, hinfix⟩ := h
  exact ⟨level, key, hkey, hinfix.trans hst⟩

/-- A run, a quote, a key, and as long a run and a quote again. -/
theorem HoldsKey.of_run {i : ℕ} {key s : Text} (hkey : isSensitive e keys key = true) :
    HoldsKey e keys (List.replicate i '\\' ++ '"' :: (key ++ (quoteAt i ++ s))) := by
  refine ⟨i, key, hkey, List.IsPrefix.isInfix ⟨s, ?_⟩⟩
  rw [← quoteAt_append, List.append_assoc, List.append_assoc]

/-! ## Strings are copied -/

/-- Before the first quote there is a comma or a colon. -/
def Separated (s : Text) : Prop :=
  ∀ u w, s = u ++ '"' :: w → '"' ∉ u → ∃ c ∈ u, c = ',' ∨ c = ':'

theorem keyAfter_of_separated (htame : TameKeys keys) {s : Text} (h : Separated s) (level : ℕ) :
    keyAfter keys level s = none := by
  cases hafter : keyAfter keys level s with
  | none => rfl
  | some v =>
    obtain ⟨key, r, rfl, hkey, -⟩ := keyAfter_eq_some hafter
    have hplain := htame.plain hkey
    obtain ⟨c, hc, hmark⟩ := h (key ++ List.replicate level '\\') r
      (by rw [quoteAt_append, List.append_assoc]) (by
        rw [List.mem_append, not_or]
        exact ⟨fun hmem => (hplain _ hmem).1 rfl,
          fun hmem => absurd (List.eq_of_mem_replicate hmem) (by decide)⟩)
    rcases List.mem_append.1 hc with hc | hc
    · refine absurd ?_ ((htame.of_spelled hkey).2 c hc)
      rcases hmark with rfl | rfl
      all_goals decide
    · rw [List.eq_of_mem_replicate hc] at hmark
      exact absurd hmark (by decide)

theorem separated_of_notMem {s : Text} (h : '"' ∉ s) : Separated s := by
  rintro u w rfl -
  exact absurd (List.mem_append_right _ List.mem_cons_self) h

theorem separated_cons {c : Char} {s : Text} (hc : c ≠ '"') (h : c = ',' ∨ c = ':' ∨ Separated s) :
    Separated (c :: s) := by
  rintro (_ | ⟨d, u⟩) w heq hu
  · exact absurd (List.cons.inj heq).1 hc
  · obtain ⟨rfl, rfl⟩ := List.cons.inj heq
    rcases h with h | h | h
    · exact ⟨c, List.mem_cons_self, .inl h⟩
    · exact ⟨c, List.mem_cons_self, .inr h⟩
    · obtain ⟨d, hd, hmark⟩ := h u w rfl fun hmem => hu (List.mem_cons_of_mem _ hmem)
      exact ⟨d, List.mem_cons_of_mem _ hd, hmark⟩

/-- What a key pattern finds from a quote within a string on: a quoted key of the string, or one
that its closing quote ends. -/
theorem keyAfter_within (htame : TameKeys keys) {level : ℕ} {s r v : Text}
    (h : keyAfter keys level (e.nested (m + 1) s ++ (quoteAt (levelOf m) ++ r)) = some v) :
    ∃ key i, isSensitive e keys key = true ∧
      ((∃ s', s = key ++ (quoteAt i ++ s') ∧ level + 1 = 2 ^ (m + 1) * (i + 1)) ∨
        s = key ++ List.replicate i '\\' ∧ level + 1 = 2 ^ (m + 1) * i + 2 ^ m ∧
          afterColon r = some v) := by
  obtain ⟨key, r', heq, hkey, hcolon⟩ := keyAfter_eq_some h
  have hplain := htame.plain hkey
  rw [← nested_quote_eq (e := e)] at heq
  obtain ⟨hfixed, s', rfl, hrest⟩ := e.nested_eq_append hplain heq
  have hsensitive : isSensitive e keys key = true := by
    have hwritten := e.nested_of_fixed hfixed 1
    rw [Escaping.nested, Escaping.nested] at hwritten
    rw [isSensitive, hwritten]
    exact hkey
  rw [quoteAt_append] at hrest
  rcases e.nested_eq_run hrest.symm with ⟨i, s'', rfl, hn, -⟩ | ⟨i, rfl, hn, rfl⟩
  · exact ⟨key, i, hsensitive, .inl ⟨s'', by rw [quoteAt_append], hn⟩⟩
  · exact ⟨key, i, hsensitive, .inr ⟨rfl, hn, hcolon⟩⟩

theorem suffix_append_cases {x a b : Text} (h : x <:+ a ++ b) :
    x <:+ b ∨ ∃ y, y ≠ [] ∧ y <:+ a ∧ x = y ++ b := by
  obtain ⟨t, ht⟩ := h
  rcases List.append_eq_append_iff.1 ht with ⟨y, rfl, rfl⟩ | ⟨y, rfl, rfl⟩
  · cases y with
    | nil => exact .inl List.suffix_rfl
    | cons c y => exact .inr ⟨c :: y, List.cons_ne_nil _ _, List.suffix_append _ _, rfl⟩
  · exact .inl (List.suffix_append _ _)

theorem suffix_quoteAt {x : Text} {level : ℕ} (hne : x ≠ []) (h : x <:+ quoteAt level) :
    ∃ j ≤ level, x = quoteAt j := by
  rcases suffix_append_cases h with h | ⟨y, -, hy, rfl⟩
  · refine ⟨0, Nat.zero_le _, ?_⟩
    rcases List.suffix_cons_iff.1 h with rfl | h
    · rfl
    · exact absurd (List.suffix_nil.1 h) hne
  · have hlength := hy.length_le
    rw [List.length_replicate] at hlength
    refine ⟨y.length, hlength, ?_⟩
    rw [quoteAt, ← List.eq_replicate_of_mem fun c hc => List.eq_of_mem_replicate (hy.subset hc)]

theorem keyAt_of_ends {x : Text} (hne : x ≠ []) (hquote : '"' ∉ x)
    (hlast : x.getLast? ≠ some '\\') (s : Text) : keyAt keys (x ++ s) = none := by
  cases hkey : keyAt keys (x ++ s) with
  | none => rfl
  | some found =>
    obtain ⟨level, v⟩ := found
    obtain ⟨key, r, heq, -⟩ := keyAt_eq_some hkey
    rw [quoteAt_append] at heq
    exact absurd heq (Escaping.ne_run hne hquote hlast)

theorem getLast?_of_suffix {x y : Text} (hne : x ≠ []) (h : x <:+ y) :
    x.getLast? = y.getLast? := by
  obtain ⟨t, rfl⟩ := h
  exact (List.getLast?_append_of_ne_nil _ hne).symm

theorem within_quote {i j : ℕ} (hj : j + 1 ≤ 2 ^ (m + 1)) (h : j + 1 = 2 ^ (m + 1) * (i + 1)) :
    i = 0 := by
  have hpos : 0 < 2 ^ (m + 1) := Nat.two_pow_pos (m + 1)
  by_contra hi
  have hle : 2 ^ (m + 1) * 2 ≤ 2 ^ (m + 1) * (i + 1) := Nat.mul_le_mul_left _ (by omega)
  omega

theorem closing_quote {i j : ℕ} (hj : j + 1 ≤ 2 ^ (m + 1)) (h : j + 1 = 2 ^ (m + 1) * i + 2 ^ m) :
    i = 0 := by
  have hpos : 0 < 2 ^ m := Nat.two_pow_pos m
  by_contra hi
  have hle : 2 ^ (m + 1) * 1 ≤ 2 ^ (m + 1) * i := Nat.mul_le_mul_left _ (by omega)
  omega

theorem run_within {i i' j k : ℕ} (hpos : 0 < j) (hj : j ≤ 2 ^ (m + 1))
    (hk : k + 1 = 2 ^ (m + 1) * (i + 1)) (h : j + k + 1 = 2 ^ (m + 1) * (i' + 1)) : i' = i + 1 := by
  have hdouble : 2 ^ (m + 1) * (i + 1 + 2) = 2 ^ (m + 1) * (i + 1) + 2 * 2 ^ (m + 1) := by
    rw [Nat.mul_add, Nat.mul_comm 2]
  rcases Nat.lt_trichotomy i' (i + 1) with hlt | heq | hgt
  · have hle : 2 ^ (m + 1) * (i' + 1) ≤ 2 ^ (m + 1) * (i + 1) := Nat.mul_le_mul_left _ hlt
    omega
  · exact heq
  · have hle : 2 ^ (m + 1) * (i + 1 + 2) ≤ 2 ^ (m + 1) * (i' + 1) :=
      Nat.mul_le_mul_left _ (by omega)
    omega

theorem run_closing {i i' j k : ℕ} (hpos : 0 < j) (hj : j ≤ 2 ^ (m + 1))
    (hk : k + 1 = 2 ^ (m + 1) * (i + 1)) (h : j + k + 1 = 2 ^ (m + 1) * i' + 2 ^ m) :
    i' = i + 1 := by
  have hdouble : 2 ^ (m + 1) * (i + 1 + 1) = 2 ^ (m + 1) * (i + 1) + 2 ^ (m + 1) := Nat.mul_succ _ _
  have hsucc : 2 ^ (m + 1) * (i + 1) = 2 ^ (m + 1) * i + 2 ^ (m + 1) := Nat.mul_succ _ _
  have hpow : 2 ^ (m + 1) = 2 * 2 ^ m := Nat.pow_succ'
  rcases Nat.lt_trichotomy i' (i + 1) with hlt | heq | hgt
  · have hle : 2 ^ (m + 1) * i' ≤ 2 ^ (m + 1) * i :=
      Nat.mul_le_mul_left _ (Nat.le_of_lt_succ hlt)
    omega
  · exact heq
  · have hle : 2 ^ (m + 1) * (i + 1 + 1) ≤ 2 ^ (m + 1) * i' := Nat.mul_le_mul_left _ hgt
    omega

/-- No key begins in what a quote of a string is written as. -/
theorem keyAt_innerQuote (htame : TameKeys keys) {s r y : Text}
    (hs : ¬ HoldsKey e keys ('"' :: s))
    (hend : HoldsKey e keys ('"' :: s ++ ['"']) → afterColon r = none) (hy : y ≠ [])
    (hsuffix : y <:+ e.nested (m + 1) ['"']) :
    keyAt keys (y ++ (e.nested (m + 1) s ++ (quoteAt (levelOf m) ++ r))) = none := by
  have hdouble : 2 ^ (m + 1) = 2 * 2 ^ m := Nat.pow_succ'
  have hpos : 0 < 2 ^ m := Nat.two_pow_pos m
  rw [e.nested_quote] at hsuffix
  obtain ⟨j, hj, rfl⟩ := suffix_quoteAt hy hsuffix
  rw [keyAt_quote, Option.map_eq_none_iff]
  cases hafter : keyAfter keys j (e.nested (m + 1) s ++ (quoteAt (levelOf m) ++ r)) with
  | none => rfl
  | some v =>
    obtain ⟨key, i, hkey, ⟨s', rfl, hlevel⟩ | ⟨rfl, hlevel, hcolon⟩⟩ :=
      keyAfter_within htame hafter
    · obtain rfl : i = 0 := within_quote (by omega) hlevel
      exact absurd (@HoldsKey.of_run e keys 0 key s' hkey) hs
    · obtain rfl : i = 0 := closing_quote (by omega) hlevel
      have hholds : HoldsKey e keys ('"' :: (key ++ List.replicate 0 '\\') ++ ['"']) := by
        have hrun := @HoldsKey.of_run e keys 0 key [] hkey
        simpa [quoteAt] using hrun
      rw [hend hholds] at hcolon
      cases hcolon

/-- No key begins in what a backslash of a string is written as: the run may go on into the rest of
the string, up to a quote of it or up to its end. -/
theorem keyAt_innerBackslash (htame : TameKeys keys) {s r y : Text}
    (hs : ¬ HoldsKey e keys ('\\' :: s))
    (hend : HoldsKey e keys ('\\' :: s ++ ['"']) → afterColon r = none) (hr : Separated r)
    (hy : y ≠ []) (hsuffix : y <:+ e.nested (m + 1) ['\\']) :
    keyAt keys (y ++ (e.nested (m + 1) s ++ (quoteAt (levelOf m) ++ r))) = none := by
  rw [e.nested_backslash] at hsuffix
  have hj := hsuffix.length_le
  rw [List.length_replicate] at hj
  rw [List.eq_replicate_of_mem fun c hc => List.eq_of_mem_replicate (hsuffix.subset hc)]
  have hj' := List.length_pos_iff.2 hy
  generalize y.length = j at hj hj'
  cases hkeyAt : keyAt keys (List.replicate j '\\' ++
      (e.nested (m + 1) s ++ (quoteAt (levelOf m) ++ r))) with
  | none => rfl
  | some found =>
    obtain ⟨level, v⟩ := found
    obtain ⟨key', r', heq, -⟩ := keyAt_eq_some hkeyAt
    rw [heq, keyAt_quote] at hkeyAt
    obtain ⟨v', hafter, -⟩ := Option.map_eq_some_iff.1 hkeyAt
    rw [quoteAt_append level] at heq
    obtain ⟨k, rfl, hrun⟩ := Escaping.run_cut heq
    rw [← nested_quote_eq (e := e)] at hrun
    rcases e.nested_eq_run hrun with ⟨i, s', rfl, hk, hz⟩ | ⟨i, rfl, hk, rfl⟩
    · rw [hz, nested_quote_eq] at hafter
      obtain ⟨key, i', hkey, ⟨s'', rfl, hlevel⟩ | ⟨rfl, hlevel, hcolon⟩⟩ :=
        keyAfter_within htame hafter
      · obtain rfl : i' = i + 1 := run_within hj' hj hk hlevel
        exact absurd (@HoldsKey.of_run e keys (i + 1) key s'' hkey) hs
      · obtain rfl : i' = i + 1 := run_closing hj' hj hk hlevel
        have hholds : HoldsKey e keys ('\\' :: (List.replicate i '\\' ++
            '"' :: (key ++ List.replicate (i + 1) '\\')) ++ ['"']) := by
          have hheld := @HoldsKey.of_run e keys (i + 1) key [] hkey
          simpa [quoteAt, List.replicate_succ] using hheld
        rw [hend hholds] at hcolon
        cases hcolon
    · rw [keyAfter_of_separated htame hr] at hafter
      cases hafter

/-- **No key begins in a string that holds none, from its first character on.** -/
theorem keyAt_content (htame : TameKeys keys) {s r : Text} (hs : ¬ HoldsKey e keys s)
    (hend : HoldsKey e keys (s ++ ['"']) → afterColon r = none) (hr : Separated r) {x : Text}
    (hne : x ≠ []) (hx : x <:+ e.nested (m + 1) s ++ quoteAt (levelOf m)) :
    keyAt keys (x ++ r) = none := by
  induction s generalizing x with
  | nil =>
    rw [e.nested_nil, List.nil_append] at hx
    obtain ⟨j, -, rfl⟩ := suffix_quoteAt hne hx
    rw [keyAt_quote, keyAfter_of_separated htame hr]
    rfl
  | cons c s ih =>
    rw [e.nested_cons, List.append_assoc] at hx
    rcases suffix_append_cases hx with hx | ⟨y, hy, hsuffix, rfl⟩
    · exact ih (fun h => hs (h.mono (List.suffix_cons _ _).isInfix))
        (fun h => hend (h.mono (List.suffix_cons _ _).isInfix)) hne hx
    rw [List.append_assoc, List.append_assoc]
    by_cases hquote : c = '"'
    · subst hquote
      exact keyAt_innerQuote htame hs hend hy hsuffix
    by_cases hback : c = '\\'
    · subst hback
      exact keyAt_innerBackslash htame hs hend hr hy hsuffix
    have hends := e.nested_other_ends (m + 1) hquote hback
    refine keyAt_of_ends hy (fun hmem => hends.1 (hsuffix.subset hmem)) ?_ _
    rw [getLast?_of_suffix hy hsuffix]
    exact hends.2

/-- **No key begins in a string with its quotes** that holds none, or none that a colon follows. -/
theorem keyAt_string (htame : TameKeys keys) {s r : Text} (hs : ¬ HoldsKey e keys s)
    (hend : HoldsKey e keys ('"' :: (s ++ ['"'])) → afterColon r = none) (hr : Separated r)
    {x : Text} (hne : x ≠ [])
    (hx : x <:+ quoteAt (levelOf m) ++ (e.nested (m + 1) s ++ quoteAt (levelOf m))) :
    keyAt keys (x ++ r) = none := by
  have hpos : 0 < 2 ^ m := Nat.two_pow_pos m
  have hdouble : 2 ^ (m + 1) = 2 * 2 ^ m := Nat.pow_succ'
  rcases suffix_append_cases hx with hx | ⟨y, hy, hsuffix, rfl⟩
  · exact keyAt_content htame hs (fun h => hend (h.mono (List.suffix_cons _ _).isInfix)) hr hne hx
  obtain ⟨j, hj, rfl⟩ := suffix_quoteAt hy hsuffix
  rw [levelOf] at hj
  rw [List.append_assoc, List.append_assoc, keyAt_quote, Option.map_eq_none_iff]
  cases hafter : keyAfter keys j (e.nested (m + 1) s ++ (quoteAt (levelOf m) ++ r)) with
  | none => rfl
  | some v =>
    obtain ⟨key, i, hkey, ⟨s', rfl, hlevel⟩ | ⟨rfl, hlevel, hcolon⟩⟩ := keyAfter_within htame hafter
    · obtain rfl : i = 0 := within_quote (by omega) hlevel
      omega
    · obtain rfl : i = 0 := closing_quote (by omega) hlevel
      have hholds : HoldsKey e keys ('"' :: ((key ++ List.replicate 0 '\\') ++ ['"'])) := by
        have hrun := @HoldsKey.of_run e keys 0 key [] hkey
        simpa [quoteAt] using hrun
      rw [hend hholds] at hcolon
      cases hcolon

/-! ## Keys -/

theorem plain_of_sensitive (htame : TameKeys keys) {key : Text}
    (h : isSensitive e keys key = true) :
    (∀ c ∈ key, e.escape c = [c]) ∧ ∀ c ∈ key, c ≠ '"' ∧ c ≠ '\\' := by
  have hplain := htame.plain h
  have hback : ∀ c ∈ key, '\\' ∉ e.escape c := fun c hc hmem =>
    (hplain _ (List.mem_flatMap.2 ⟨c, hc, hmem⟩)).2 rfl
  have hchar : ∀ c ∈ key, c ≠ '"' ∧ c ≠ '\\' := by
    intro c hc
    constructor
    · rintro rfl
      exact hback _ hc (e.quote ▸ List.mem_cons_self)
    · rintro rfl
      exact hback _ hc (e.backslash ▸ List.mem_cons_self)
  refine ⟨fun c hc => ?_, hchar⟩
  rcases e.other c (hchar c hc).1 (hchar c hc).2 with heq | hcode
  · exact heq
  · exact absurd (List.mem_of_mem_head? hcode.head) (hback c hc)

theorem nested_of_sensitive (htame : TameKeys keys) {key : Text}
    (h : isSensitive e keys key = true) (n : ℕ) : e.nested n key = key :=
  e.nested_of_fixed (plain_of_sensitive htame h).1 n

/-- A key without quotes and backslashes holds no key, and is one with its quotes where it is
sensitive. -/
theorem sensitive_of_holdsKey (htame : TameKeys keys) {key : Text}
    (hkey : ∀ c ∈ key, c ≠ '"' ∧ c ≠ '\\') (h : HoldsKey e keys ('"' :: (key ++ ['"']))) :
    isSensitive e keys key = true := by
  obtain ⟨level, k, hk, a, b, heq⟩ := h
  have hmem : ∀ c ∈ '"' :: (key ++ ['"']), c ≠ '\\' := by
    intro c hc
    rcases List.mem_cons.1 hc with rfl | hc
    · decide
    rcases List.mem_append.1 hc with hc | hc
    · exact (hkey c hc).2
    · rw [List.mem_singleton.1 hc]
      decide
  obtain rfl : level = 0 := by
    by_contra hlevel
    refine hmem '\\' ?_ rfl
    rw [← heq, quoteAt]
    simp [hlevel]
  have hcount := congrArg (List.count '"') heq
  have hnone : key.count '"' = 0 := List.count_eq_zero.2 fun hc => (hkey _ hc).1 rfl
  simp only [quoteAt, List.replicate_zero, List.nil_append, List.count_append, List.count_cons,
    List.count_nil, hnone, beq_self_eq_true, if_true] at hcount
  have ha : a = [] := by
    cases a with
    | nil => rfl
    | cons c a =>
      obtain ⟨rfl, -⟩ := List.cons.inj heq
      simp only [List.count_cons, beq_self_eq_true, if_true] at hcount
      omega
  subst ha
  have hrest : k ++ (quoteAt 0 ++ b) = key ++ (quoteAt 0 ++ []) := by
    simpa [quoteAt] using heq
  obtain ⟨rfl, -⟩ := eq_of_append_quoteAt (plain_of_sensitive htame hk).2 hkey hrest
  exact hk

theorem not_holdsKey_of_notMem {s : Text} (h : '"' ∉ s) : ¬ HoldsKey e keys s := by
  rintro ⟨level, key, -, hinfix⟩
  apply h
  apply hinfix.subset
  exact List.mem_append_left _ (List.mem_append_right _ List.mem_cons_self)

theorem afterColon_field (after : ℕ) (t : Tree) (s : Text) :
    afterColon (':' :: blanks after ++ (t.text e m ++ s)) = some (t.text e m ++ s) := by
  obtain ⟨c, u, hu, hspace⟩ := head_text (e := e) (m := m) t
  have hblanks : ∀ c ∈ blanks after, Text.isSpace c = true := fun c hc => by
    rw [List.eq_of_mem_replicate hc]
    rfl
  have hdrop : (blanks after ++ (t.text e m ++ s)).dropWhile Text.isSpace = t.text e m ++ s := by
    rw [List.dropWhile_append_of_pos hblanks, hu, List.cons_append,
      List.dropWhile_cons_of_neg (by rw [hspace]; exact Bool.false_ne_true)]
  rw [afterColon, List.cons_append, List.dropWhile_cons_of_neg (by decide)]
  exact congrArg some hdrop

/-! ## The tree is redacted -/

/-- The first part of a text becomes another one, with so many hits, whatever follows becomes. -/
def Becomes (keys : List Text) (p q : Text) (n : ℕ) (s : Text) : Prop :=
  redactJsonFields keys (p ++ s) =
    (q ++ (redactJsonFields keys s).1, n + (redactJsonFields keys s).2)

theorem Becomes.append {p p' q q' s : Text} {n k : ℕ} (h : Becomes keys p p' n (q ++ s))
    (h' : Becomes keys q q' k s) : Becomes keys (p ++ q) (p' ++ q') (n + k) s := by
  unfold Becomes at *
  rw [List.append_assoc, h, h', List.append_assoc, Nat.add_assoc]

theorem becomes_plain {p : Text} (h : ∀ c ∈ p, c ≠ '"' ∧ c ≠ '\\') (s : Text) :
    Becomes keys p p 0 s := by
  rw [Becomes, redactJsonFields_plain h, Nat.zero_add]

theorem becomes_string (htame : TameKeys keys) {s r : Text} (hs : ¬ HoldsKey e keys s)
    (hend : HoldsKey e keys ('"' :: (s ++ ['"'])) → afterColon r = none) (hr : Separated r) :
    Becomes keys (quoteAt (levelOf m) ++ (e.nested (m + 1) s ++ quoteAt (levelOf m)))
      (quoteAt (levelOf m) ++ (e.nested (m + 1) s ++ quoteAt (levelOf m))) 0 r := by
  rw [Becomes, redactJsonFields_append fun x hne hx => keyAt_string htame hs hend hr hne hx,
    Nat.zero_add]

/-- What may follow a value within a tree. -/
structure Follows (s : Text) : Prop where
  separated : Separated s
  noColon : afterColon s = none
  noScalar : ∃ c s', s = c :: s' ∧ isScalar c = false

theorem follows_comma (s : Text) : Follows (',' :: s) :=
  ⟨separated_cons (by decide) (.inl rfl), rfl, _, _, rfl, rfl⟩

theorem follows_items (items : Items) {s : Text} (hs : Separated s) :
    Follows (items.text e m [','] ++ s) := by
  cases items with
  | nil =>
    rw [text_nil]
    exact ⟨separated_cons (by decide) (.inr (.inr hs)), rfl, _, _, rfl, rfl⟩
  | cons spaces v items =>
    rw [text_cons comma_singleton]
    exact follows_comma _

theorem follows_fields (fields : Fields) {s : Text} (hs : Separated s) :
    Follows (fields.text e m [','] ++ s) := by
  cases fields with
  | nil =>
    rw [text_noFields]
    exact ⟨separated_cons (by decide) (.inr (.inr hs)), rfl, _, _, rfl, rfl⟩
  | cons spaces key after v fields =>
    rw [text_field comma_singleton]
    exact follows_comma _

theorem text_redactedTree : redactedTree.text e m = quotedPlaceholder (levelOf m) := by
  have hplain : ∀ c ∈ placeholder jsonFieldLabel,
      32 ≤ c.toNat ∧ c.toNat < 127 ∧ c ≠ '"' ∧ c ≠ '\\' := Text.forall_of_all (by decide)
  rw [redactedTree, text_string, e.nested_of_fixed fun c hc => ?_, quotedPlaceholder,
    List.append_assoc]
  obtain ⟨hlow, hhigh, hquote, hback⟩ := hplain c hc
  exact e.printable c hlow hhigh hquote hback

theorem plain_colon (after : ℕ) : ∀ c ∈ ':' :: blanks after, c ≠ '"' ∧ c ≠ '\\' := by
  intro c hc
  rcases List.mem_cons.1 hc with rfl | hc
  · exact ⟨by decide, by decide⟩
  · rw [List.eq_of_mem_replicate hc]
    exact ⟨by decide, by decide⟩

/-- An item, after its comma and the spaces. -/
theorem Becomes.spaced {comma : Text} (hcomma : ∀ c ∈ comma, c = ',') (spaces : ℕ) {p q s : Text}
    {n : ℕ} (h : Becomes keys p q n s) :
    Becomes keys (comma ++ (blanks spaces ++ p)) (comma ++ (blanks spaces ++ q)) n s := by
  have hplain : ∀ c ∈ comma ++ blanks spaces, c ≠ '"' ∧ c ≠ '\\' := by
    intro c hc
    rcases List.mem_append.1 hc with hc | hc
    · rw [hcomma c hc]
      exact ⟨by decide, by decide⟩
    · rw [List.eq_of_mem_replicate hc]
      exact ⟨by decide, by decide⟩
  have hall := (becomes_plain hplain (p ++ s)).append h
  rwa [Nat.zero_add, List.append_assoc, List.append_assoc] at hall

/-- A field whose key is not sensitive. -/
theorem becomes_otherField (htame : TameKeys keys) {key : Text}
    (hkey : ∀ c ∈ key, c ≠ '"' ∧ c ≠ '\\') (hsensitive : isSensitive e keys key ≠ true) (after : ℕ)
    {p p' s : Text} {n : ℕ} (h : Becomes keys p p' n s) :
    Becomes keys (fieldText e m key after p) (fieldText e m key after p') n s := by
  have hsep : Separated ((':' :: blanks after ++ p) ++ s) :=
    separated_cons (by decide) (.inr (.inl rfl))
  have hnone : ¬ HoldsKey e keys key := not_holdsKey_of_notMem fun hmem => (hkey _ hmem).1 rfl
  have hstring := becomes_string (m := m) htame hnone
    (fun hholds => absurd (sensitive_of_holdsKey htame hkey hholds) hsensitive) hsep
  have hvalue := (becomes_plain (plain_colon after) (p ++ s)).append h
  rw [Nat.zero_add] at hvalue
  have hall := hstring.append hvalue
  simpa only [fieldText, List.append_assoc, Nat.zero_add] using hall

/-- A sensitive field. -/
theorem becomes_sensitiveField (htame : TameKeys keys) (hm : m ≤ 3) {key : Text}
    (hsensitive : isSensitive e keys key = true) (after : ℕ) {t : Tree} {s : Text}
    (hs : Follows s)
    (h : Becomes keys (t.text e m) ((t.redacted e keys).text e m) (t.hits e keys) s) :
    Becomes keys (fieldText e m key after (t.text e m))
      (fieldText e m key after
        ((if t.isReplaced = true then redactedTree else t.redacted e keys).text e m))
      (if t.isReplaced = true then 1 else t.hits e keys) s := by
  have hwritten := nested_of_sensitive htame hsensitive
  have hspelled : isSpelled keys key = true := by
    have hflat := hwritten 1
    rw [Escaping.nested, Escaping.nested] at hflat
    rwa [isSensitive, hflat] at hsensitive
  have hfield : ∀ w, fieldText e m key after w =
      fieldText e m key after [] ++ w := fun w => by
    simp only [fieldText, List.append_assoc, List.append_nil]
  have hkeyAt : keyAt keys (fieldText e m key after [] ++ (t.text e m ++ s)) =
      some (levelOf m, t.text e m ++ s) := by
    rw [← hfield, fieldText, keyAt_quote, hwritten,
      keyAfter_append _ htame (plain_of_sensitive htame hsensitive).2, if_pos hspelled,
      afterColon_field]
    rfl
  have hend := valueEnd_text (e := e) hm t hs.noScalar
  rw [Becomes, hfield, List.append_assoc]
  split
  · next hreplaced =>
    rw [if_pos hreplaced] at hend
    rw [redactJsonFields_field hkeyAt hend, List.drop_left, hfield (redactedTree.text e m),
      text_redactedTree, Nat.add_comm]
  · next hleft =>
    rw [if_neg hleft] at hend
    rw [redactJsonFields_left hkeyAt hend, h, hfield (Tree.text e m _), List.append_assoc]

mutual

theorem becomes_tree (htame : TameKeys keys) (hm : m ≤ 3) (t : Tree) {s : Text}
    (hkeys : ∀ key ∈ t.keys, ∀ c ∈ key, c ≠ '"' ∧ c ≠ '\\')
    (hstrings : ∀ x ∈ t.strings, ¬ HoldsKey e keys x) (hs : Separated s)
    (hend : ∀ x, t = .scalar (.string x) → HoldsKey e keys ('"' :: (x ++ ['"'])) →
      afterColon s = none) :
    Becomes keys (t.text e m) ((t.redacted e keys).text e m) (t.hits e keys) s := by
  cases t with
  | scalar v =>
    by_cases hv : ∀ s, v ≠ .string s
    · rw [Tree.redacted, text_scalar hv]
      refine becomes_plain (fun c hc => ?_) s
      have hplain := isPlain_dumps hv c hc
      constructor
      all_goals
        rintro rfl
        exact absurd hplain (by decide)
    · simp only [not_forall, not_not] at hv
      obtain ⟨x, rfl⟩ := hv
      rw [Tree.redacted, text_string]
      exact becomes_string htame (hstrings x List.mem_cons_self) (hend x rfl) hs
  | array items =>
    have hopen := @becomes_plain keys ['['] (Text.forall_of_all (by decide))
      (items.text e m [] ++ s)
    have hall := hopen.append (becomes_items htame hm items comma_nil hkeys hstrings hs)
    rw [Tree.redacted, text_array, text_array, Tree.hits]
    rwa [Nat.zero_add] at hall
  | object fields =>
    have hopen := @becomes_plain keys ['{'] (Text.forall_of_all (by decide))
      (fields.text e m [] ++ s)
    have hall := hopen.append (becomes_fields htame hm fields comma_nil hkeys hstrings hs)
    rw [Tree.redacted, text_object, text_object, Tree.hits]
    rwa [Nat.zero_add] at hall

theorem becomes_items (htame : TameKeys keys) (hm : m ≤ 3) (items : Items) {comma s : Text}
    (hcomma : ∀ c ∈ comma, c = ',')
    (hkeys : ∀ key ∈ items.keys, ∀ c ∈ key, c ≠ '"' ∧ c ≠ '\\')
    (hstrings : ∀ x ∈ items.strings, ¬ HoldsKey e keys x) (hs : Separated s) :
    Becomes keys (items.text e m comma) ((items.redacted e keys).text e m comma)
      (items.hits e keys) s := by
  cases items with
  | nil =>
    rw [Items.redacted, text_nil, Items.hits]
    exact becomes_plain (Text.forall_of_all (by decide)) s
  | cons spaces v items =>
    have hfollows := @follows_items e m items s hs
    have hv := becomes_tree htame hm v
      (fun key hkey => hkeys key (List.mem_append_left _ hkey))
      (fun x hx => hstrings x (List.mem_append_left _ hx)) hfollows.separated
      fun _ _ _ => hfollows.noColon
    have hitems := becomes_items htame hm items comma_singleton
      (fun key hkey => hkeys key (List.mem_append_right _ hkey))
      (fun x hx => hstrings x (List.mem_append_right _ hx)) hs
    rw [text_cons hcomma, Items.redacted, text_cons hcomma, Items.hits]
    exact (hv.append hitems).spaced hcomma spaces

theorem becomes_fields (htame : TameKeys keys) (hm : m ≤ 3) (fields : Fields) {comma s : Text}
    (hcomma : ∀ c ∈ comma, c = ',')
    (hkeys : ∀ key ∈ fields.keys, ∀ c ∈ key, c ≠ '"' ∧ c ≠ '\\')
    (hstrings : ∀ x ∈ fields.strings, ¬ HoldsKey e keys x) (hs : Separated s) :
    Becomes keys (fields.text e m comma) ((fields.redacted e keys).text e m comma)
      (fields.hits e keys) s := by
  cases fields with
  | nil =>
    rw [Fields.redacted, text_noFields, Fields.hits]
    exact becomes_plain (Text.forall_of_all (by decide)) s
  | cons spaces key after v fields =>
    have hkey := hkeys key List.mem_cons_self
    have hfollows := @follows_fields e m fields s hs
    have hv := becomes_tree htame hm v
      (fun key hkey => hkeys key (List.mem_cons_of_mem _ (List.mem_append_left _ hkey)))
      (fun x hx => hstrings x (List.mem_append_left _ hx)) hfollows.separated
      fun _ _ _ => hfollows.noColon
    have hfields := becomes_fields htame hm fields comma_singleton
      (fun key hkey => hkeys key (List.mem_cons_of_mem _ (List.mem_append_right _ hkey)))
      (fun x hx => hstrings x (List.mem_append_right _ hx)) hs
    rw [text_field hcomma, Fields.redacted, text_field hcomma, Fields.hits]
    refine Becomes.spaced hcomma spaces (Becomes.append ?_ hfields)
    by_cases hsensitive : isSensitive e keys key = true
    · rw [hsensitive, Bool.true_and]
      exact becomes_sensitiveField htame hm hsensitive after hfollows hv
    · rw [Bool.eq_false_of_not_eq_true hsensitive, Bool.false_and, if_neg Bool.false_ne_true,
        if_neg Bool.false_ne_true]
      exact becomes_otherField htame hkey hsensitive after hv

end

/-! ## The text around it -/

theorem redactJsonFields_of_notMem {s : Text} (h : '"' ∉ s) : redactJsonFields keys s = (s, 0) := by
  have hcopied := @redactJsonFields_append keys s [] fun x _ hx => by
    cases hkey : keyAt keys (x ++ []) with
    | none => rfl
    | some found =>
      obtain ⟨level, v⟩ := found
      obtain ⟨key, r, heq, -⟩ := keyAt_eq_some hkey
      rw [List.append_nil, quoteAt_append] at heq
      refine absurd (hx.subset ?_) h
      rw [heq]
      exact List.mem_append_right _ List.mem_cons_self
  simpa only [List.append_nil, redactJsonFields_nil] using hcopied

/-- Where the text before a tree ends in no backslash, or the tree begins with neither a backslash
nor a quote, no key begins in that text. -/
theorem keyAt_before {x s : Text} (hne : x ≠ []) (hquote : '"' ∉ x)
    (h : x.getLast? ≠ some '\\' ∨ ∃ c s', s = c :: s' ∧ c ≠ '"' ∧ c ≠ '\\') :
    keyAt keys (x ++ s) = none := by
  rcases h with hlast | ⟨c, s, rfl, hc⟩
  · exact keyAt_of_ends hne hquote hlast s
  · have hplain : x ++ [c] ≠ [] := List.append_ne_nil_of_left_ne_nil hne _
    have hcopied := @keyAt_of_ends keys (x ++ [c]) hplain (by
      rw [List.mem_append, not_or]
      exact ⟨hquote, fun hmem => hc.1 (List.mem_singleton.1 hmem).symm⟩)
      (by rw [List.getLast?_concat]; exact fun hlast => hc.2 (Option.some.inj hlast)) s
    rwa [List.append_assoc, List.singleton_append] at hcopied

theorem head_of_noString {t : Tree} (ht : ∀ s, t ≠ .scalar (.string s)) :
    ∃ c s, t.text e m = c :: s ∧ c ≠ '"' ∧ c ≠ '\\' := by
  cases t with
  | scalar v =>
    have hv : ∀ s, v ≠ .string s := fun s hs => ht s (congrArg Tree.scalar hs)
    obtain ⟨c, s, hs⟩ := List.exists_cons_of_ne_nil (dumps_ne_nil v)
    have hplain := isPlain_dumps hv c (hs ▸ List.mem_cons_self)
    refine ⟨c, s, by rw [text_scalar hv, hs], ?_, ?_⟩
    all_goals
      rintro rfl
      exact absurd hplain (by decide)
  | array items => exact ⟨'[', _, text_array items, by decide, by decide⟩
  | object fields => exact ⟨'{', _, text_object fields, by decide, by decide⟩

/-! ## The configured keys -/

/-- A setting of `REDACT_JSON_KEYS` in ASCII, with no quote, backslash or colon. -/
def TameSetting (configured : Text) : Prop :=
  ∀ c ∈ configured, c.toNat < 128 ∧ c ∉ ['"', '\\', ':']

theorem lower_of_ascii {s : Text} (h : ∀ c ∈ s, c.toNat < 128) :
    Text.lower s = s.map Char.toLower := by
  rw [List.map_eq_flatMap, Text.lower]
  refine List.flatMap_congr fun c hc => ?_
  have hc := h c hc
  rw [if_neg (by omega), if_neg (by omega)]

theorem toLower_of_mark {c : Char} (h : c.toLower ∈ ['"', '\\', ',', ':']) : c.toLower = c := by
  rcases Text.toLower_cases c with heq | ⟨hlow, hhigh, hcode⟩
  · exact heq
  · have hmarks : ∀ d ∈ ['"', '\\', ',', ':'], d.toNat < 97 := Text.forall_of_all (by decide)
    have hmark := hmarks _ h
    omega

theorem tameSetting_nil : TameSetting [] := fun _ hc => absurd hc List.not_mem_nil

theorem tameKeys_alternatives {configured : Text} (h : TameSetting configured) :
    TameKeys (alternatives configured) := by
  intro key hkey
  rw [mem_alternatives] at hkey
  by_cases hblank : Text.strip configured = []
  · have hdefault : key ∈ alternatives [] := by
      rw [mem_alternatives]
      rw [jsonKeys, if_pos hblank] at hkey
      exact hkey
    obtain ⟨hne, hplain⟩ := plainKeys_default key hdefault
    refine ⟨hne, fun c hc hmark => ?_⟩
    have hall : ∀ d ∈ ['"', '\\', ',', ':'], (d.isLower || d.isDigit) = false :=
      Text.forall_of_all (by decide)
    have hfalse := hall c hmark
    rw [hplain c hc] at hfalse
    cases hfalse
  · rw [jsonKeys, if_neg hblank, List.mem_eraseDups] at hkey
    obtain ⟨piece, hpiece, rfl⟩ := List.mem_map.1 hkey
    obtain ⟨hsplit, hne⟩ := List.mem_filter.1 hpiece
    have hchars : ∀ c ∈ Text.strip piece, c.toNat < 128 ∧ c ∉ ['"', '\\', ',', ':'] := by
      intro c hc
      have hmem := (Text.strip_within piece).subset hc
      have hsetting := h c ((Text.strip_within configured).subset
        (Text.subset_of_mem_splitOn hsplit hmem))
      have hcomma : c ≠ ',' := by
        rintro rfl
        exact Text.not_mem_splitOn hsplit hmem
      simp only [List.mem_cons, List.not_mem_nil, or_false, not_or] at hsetting ⊢
      exact ⟨hsetting.1, hsetting.2.1, hsetting.2.2.1, hcomma, hsetting.2.2.2⟩
    rw [lower_of_ascii fun c hc => (hchars c hc).1]
    refine ⟨fun hnil => of_decide_eq_true hne (List.map_eq_nil_iff.1 hnil), fun c hc hmark => ?_⟩
    obtain ⟨d, hd, rfl⟩ := List.mem_map.1 hc
    exact (hchars d hd).2 (toLower_of_mark hmark ▸ hmark)

/-! ## What is redacted -/

/-- **The values of the sensitive keys are replaced, and nothing else.** -/
theorem redacts_exactly (e : Escaping) {configured : Text} (hconfigured : TameSetting configured)
    {m : ℕ} (hm : m ≤ 3) {t : Tree} (hkeys : ∀ key ∈ t.keys, '"' ∉ key ∧ '\\' ∉ key)
    (hstrings : ∀ s ∈ t.strings, ¬ HoldsKey e (alternatives configured) s) {before after : Text}
    (hbefore : '"' ∉ before) (hafter : '"' ∉ after)
    (hstring : ∀ s, t = .scalar (.string s) → before.getLast? ≠ some '\\' ∧
      (HoldsKey e (alternatives configured) ('"' :: (s ++ ['"'])) → afterColon after = none)) :
    redactJsonFields (alternatives configured) (before ++ (t.text e m ++ after)) =
      (before ++ ((t.redacted e (alternatives configured)).text e m ++ after),
        t.hits e (alternatives configured)) := by
  have htree := becomes_tree (m := m) (tameKeys_alternatives hconfigured) hm t
    (fun key hkey c hc => ⟨fun heq => (hkeys key hkey).1 (heq ▸ hc),
      fun heq => (hkeys key hkey).2 (heq ▸ hc)⟩)
    hstrings (separated_of_notMem hafter) fun x hx => (hstring x hx).2
  rw [Becomes, redactJsonFields_of_notMem hafter] at htree
  rw [redactJsonFields_append fun x hne hx =>
    keyAt_before hne (fun hmem => hbefore (hx.subset hmem)) ?_, htree]
  · rfl
  · by_cases ht : ∀ s, t ≠ .scalar (.string s)
    · obtain ⟨c, s, hs, hc⟩ := head_of_noString (e := e) (m := m) ht
      exact .inr ⟨c, s ++ after, by rw [hs, List.cons_append], hc⟩
    · simp only [not_forall, not_not] at ht
      obtain ⟨s, hs⟩ := ht
      exact .inl (getLast?_of_suffix hne hx ▸ (hstring s hs).1)

/-- An object within a string: a name, and a number that is none. -/
def loggedTree : Tree :=
  .object (.cons 0 "name".toList 1 (.scalar (.string "A".toList))
    (.cons 1 "id".toList 2 (.scalar (.number (Number.ofNat 7))) .nil))

theorem redacts_loggedTree :
    redactJsonFields (alternatives [])
        ("log: ".toList ++ (loggedTree.text .raw 1 ++ " done".toList)) =
      (("log: \x7b\\\"name\\\": \\\"[REDACTED:JSON_FIELD]\\\", " ++
        "\\\"id\\\":  7\x7d done").toList, 1) := by
  have hname : isSensitive .raw (alternatives []) "name".toList = true :=
    isSpelled_iff.2 (mem_alternatives.2 (by decide +kernel))
  have hid : isSensitive .raw (alternatives []) "id".toList = false :=
    Bool.eq_false_of_not_eq_true fun h =>
      absurd (mem_alternatives.1 (isSpelled_iff.1 h)) (by decide +kernel)
  have hredacted := @redacts_exactly .raw [] tameSetting_nil 1 (by decide) loggedTree (by decide)
    (fun s hs => ?_) "log: ".toList " done".toList (by decide) (by decide)
    fun s hstring => Tree.noConfusion hstring
  · simp only [loggedTree, Tree.redacted, Fields.redacted, Tree.hits, Fields.hits, hname,
      hid] at hredacted
    exact hredacted
  · rw [List.mem_singleton.1 hs]
    exact not_holdsKey_of_notMem (by decide)

/-- **A tree that is a string is taken for a key** where it spells one and a colon follows. -/
theorem string_read_as_key :
    '"' ∉ ": 5".toList ∧ ¬ HoldsKey .raw (alternatives []) "name".toList ∧
      redactJsonFields (alternatives [])
          ((Tree.scalar (.string "name".toList)).text .raw 0 ++ ": 5".toList) ≠
        (((Tree.scalar (.string "name".toList)).redacted .raw (alternatives [])).text .raw 0 ++
          ": 5".toList, (Tree.scalar (.string "name".toList)).hits .raw (alternatives [])) := by
  refine ⟨by decide, not_holdsKey_of_notMem (by decide), fun h => ?_⟩
  have htame : TameKeys (alternatives []) := tameKeys_alternatives tameSetting_nil
  have hspelled : isSpelled (alternatives []) "name".toList = true :=
    isSpelled_iff.2 (mem_alternatives.2 (by decide +kernel))
  have hkey : keyAfter (alternatives []) 0 ("name".toList ++ (quoteAt 0 ++ ": 5".toList)) =
      some "5".toList := by
    rw [keyAfter_append 0 htame (Text.forall_of_all (by decide)), if_pos hspelled]
    decide
  have hkeyAt : keyAt (alternatives []) ("\"name\": ".toList ++ "5".toList) =
      some (0, "5".toList) := by
    have hquote := @keyAt_quote (alternatives []) 0 ("name".toList ++ (quoteAt 0 ++ ": 5".toList))
    rw [hkey] at hquote
    exact hquote
  have hend : valueEnd 0 "5".toList = some 1 := by decide
  have hhits := congrArg Prod.snd ((redactJsonFields_field hkeyAt hend).symm.trans h)
  cases hhits

end ResidentCrm.Logs.Redaction
