import ResidentCrm.Dlt.Bitbucket
import ResidentCrm.Lib.Words

/-!
# The version of a pom

Placeholders are substituted once, and a property may name another: what `parse_pom_version` gives
is the interpolated version exactly where the values of the properties that it names bring no
placeholder in (`pom_version_iff`).
-/

namespace ResidentCrm.Dlt.Pom

/-! ## What a pom declares -/

/-- The project's own version: the first that is not blank. -/
def ownVersion (l : List Element) : Option Text :=
  l.findSome? fun child =>
    if child.localName = "version".toList then orNone child.stripped else none

/-- The parents' version, after what was inherited before. -/
def inheritedVersion (inherited : Option Text) (l : List Element) : Option Text :=
  l.foldl (fun version child =>
    if child.localName = "parent".toList then parentVersion version child else version) inherited

/-- The version of the project, or the parent's where it has none. -/
def declared (root : Element) : Option Text :=
  (ownVersion root.children).or (inheritedVersion none root.children)

/-- A placeholder is in the text. -/
def Unresolved (t : Text) : Prop := ∃ name, '$' :: '{' :: (name ++ ['}']) <:+: t

/-- One substitution, where all properties are defined. -/
def substitute (properties : Properties) (value : Text) : Option Text :=
  if missing properties value = [] then some (expand properties value) else none

/-- Substitution again and again. -/
def substituted (properties : Properties) (value : Text) : ℕ → Option Text
  | 0 => some value
  | n + 1 => (substituted properties value n).bind (substitute properties)

/-- The text is what interpolation comes to: no placeholder is left. -/
def Interpolates (properties : Properties) (value t : Text) : Prop :=
  (∃ n, substituted properties value n = some t) ∧ ¬ Unresolved t

/-! ## Texts without placeholders -/

theorem Unresolved.mono {s t : Text} (h : Unresolved s) (hst : s <:+: t) : Unresolved t := by
  obtain ⟨name, hname⟩ := h
  exact ⟨name, hname.trans hst⟩

/-- A text with a `c` in it, up to the first. -/
theorem exists_eq_takeWhile {c : Char} {s : Text} (h : c ∈ s) :
    ∃ rest, s = s.takeWhile (· ≠ c) ++ c :: rest := by
  induction s with
  | nil => exact absurd h List.not_mem_nil
  | cons d s ih =>
    by_cases hd : d = c
    · subst hd
      exact ⟨s, by rw [List.takeWhile_cons_of_neg (by simp), List.nil_append]⟩
    · obtain ⟨rest, hrest⟩ := ih ((List.mem_cons.1 h).resolve_left (Ne.symm hd))
      refine ⟨rest, ?_⟩
      rw [List.takeWhile_cons_of_pos (by simpa using hd), List.cons_append, ← hrest]

theorem unresolved_of_placeholderAt {t name : Text} (h : placeholderAt t = some name) :
    Unresolved t := by
  unfold placeholderAt at h
  split at h
  · next s =>
    simp only at h
    split at h
    · next hclosed =>
      obtain ⟨rest, hrest⟩ := exists_eq_takeWhile hclosed.2
      refine ⟨s.takeWhile (· ≠ '}'), [], rest, ?_⟩
      rw [List.nil_append, List.cons_append, List.cons_append, List.append_assoc,
        List.singleton_append, ← hrest]
    · cases h
  · cases h

theorem tokensFrom_of_resolved {t : Text} (h : ¬ Unresolved t) : tokensFrom 0 t = t.map .char := by
  induction t with
  | nil => rfl
  | cons c t ih =>
    have ih := ih fun ht => h (ht.mono (List.suffix_cons c t).isInfix)
    cases hc : placeholderAt (c :: t) with
    | some name => exact absurd (unresolved_of_placeholderAt hc) h
    | none => rw [tokensFrom, hc, List.map_cons, ih]

/-- Substitution leaves such a text as it is. -/
theorem substitute_of_resolved (properties : Properties) {t : Text} (h : ¬ Unresolved t) :
    substitute properties t = some t := by
  have hnames : names t = [] := by
    rw [names, tokens, tokensFrom_of_resolved h, List.filterMap_eq_nil_iff]
    rintro _ hmem
    obtain ⟨c, -, rfl⟩ := List.mem_map.1 hmem
    rfl
  have hexpand : expand properties t = t := by
    rw [expand, tokens, tokensFrom_of_resolved h, List.flatMap_map]
    exact List.flatMap_singleton' t
  rw [substitute, missing, hnames, List.filter_nil, if_pos rfl, hexpand]

theorem substituted_add_of_resolved {properties : Properties} {value t : Text} {n : ℕ}
    (h : substituted properties value n = some t) (ht : ¬ Unresolved t) (k : ℕ) :
    substituted properties value (n + k) = some t := by
  induction k with
  | zero => exact h
  | succ k ih =>
    rw [← Nat.add_assoc, substituted, ih, Option.bind_some, substitute_of_resolved _ ht]

/-- Interpolation comes to one text at most. -/
theorem Interpolates.unique {properties : Properties} {value t u : Text}
    (ht : Interpolates properties value t) (hu : Interpolates properties value u) : t = u := by
  obtain ⟨⟨n, hn⟩, ht⟩ := ht
  obtain ⟨⟨m, hm⟩, hu⟩ := hu
  have hleft := substituted_add_of_resolved hn ht m
  have hright := substituted_add_of_resolved hm hu n
  rw [Nat.add_comm, hleft] at hright
  exact Option.some.inj hright

/-- From the second text on it is the interpolation of that one. -/
theorem interpolates_iff_of_substitute {properties : Properties} {value t u : Text}
    (h : substitute properties value = some t) (ht : ¬ Unresolved t) :
    Interpolates properties value u ↔ u = t := by
  have hself : Interpolates properties value t := ⟨⟨1, h⟩, ht⟩
  constructor
  · exact fun hu => hu.unique hself
  · rintro rfl
    exact hself

theorem not_interpolates_of_missing {properties : Properties} {value : Text}
    (h : substitute properties value = none) (u : Text) : ¬ Interpolates properties value u := by
  rintro ⟨⟨n, hn⟩, hu⟩
  have hnone : ∀ k, substituted properties value (k + 1) = none := fun k => by
    induction k with
    | zero => exact h
    | succ k ih => rw [substituted, ih, Option.bind_none]
  cases n with
  | zero =>
    rw [Option.some.inj hn, substitute_of_resolved _ hu] at h
    cases h
  | succ n =>
    rw [hnone n] at hn
    cases hn

/-! ## Blanks around a text -/

theorem dropWhile_append_of_head {p : Char → Bool} (a : Text) {c : Char} {x : Text}
    (hc : p c = false) : (a ++ c :: x).dropWhile p = a.dropWhile p ++ c :: x := by
  induction a with
  | nil => rw [List.nil_append, List.dropWhile_nil, List.dropWhile_cons_of_neg (by simp [hc])]; rfl
  | cons d a ih =>
    rw [List.cons_append]
    by_cases hd : p d = true
    · rw [List.dropWhile_cons_of_pos hd, List.dropWhile_cons_of_pos hd, ih]
    · rw [List.dropWhile_cons_of_neg hd, List.dropWhile_cons_of_neg hd, List.cons_append]

/-- Blanks around a text are outside what starts and ends with another character. -/
theorem infix_strip {c d : Char} {m t : Text} (hc : Text.isSpace c = false)
    (hd : Text.isSpace d = false) (h : c :: (m ++ [d]) <:+: t) :
    c :: (m ++ [d]) <:+: Text.strip t := by
  obtain ⟨a, b, rfl⟩ := h
  have hfront : (a ++ c :: (m ++ [d]) ++ b).dropWhile Text.isSpace =
      (b.reverse ++ d :: (a.dropWhile Text.isSpace ++ c :: m).reverse).reverse := by
    rw [List.append_assoc, List.cons_append, dropWhile_append_of_head _ hc]
    simp
  refine ⟨a.dropWhile Text.isSpace, (b.reverse.dropWhile Text.isSpace).reverse, ?_⟩
  rw [Text.strip, hfront, List.rdropWhile_reverse, dropWhile_append_of_head _ hd]
  simp

theorem unresolved_strip_iff {t : Text} : Unresolved (Text.strip t) ↔ Unresolved t := by
  constructor
  · exact fun h => h.mono (Text.strip_within t)
  · rintro ⟨name, h⟩
    have hstrip := infix_strip (m := '{' :: name) (by decide) (by decide) h
    exact ⟨name, hstrip⟩

/-! ## The declared version -/

theorem orNone_eq_some {s t : Text} : orNone s = some t ↔ t = s ∧ t ≠ [] := by
  unfold orNone
  split
  · next h => exact iff_of_false (fun h => by cases h) fun ⟨ht, hne⟩ => hne (ht.trans h)
  · next h =>
    rw [Option.some.injEq]
    exact ⟨fun heq => ⟨heq.symm, heq ▸ h⟩, fun heq => heq.1.symm⟩

/-- The loop returns what substitution makes of the project's version, or of the inherited one. -/
theorem versionFrom_eq (properties : Properties) (inherited : Option Text) (l : List Element) :
    versionFrom properties inherited l =
      ((ownVersion l).or (inheritedVersion inherited l)).bind
        (resolvePlaceholders · properties) := by
  induction l generalizing inherited with
  | nil => rfl
  | cons child rest ih =>
    rw [versionFrom, ownVersion, List.findSome?_cons]
    by_cases hversion : child.localName = "version".toList
    · have hparent : child.localName ≠ "parent".toList := by
        rw [hversion]
        decide
      by_cases hblank : child.stripped = []
      · rw [if_neg fun h => h.2 hblank, if_neg hparent, if_pos hversion, orNone, if_pos hblank, ih,
          inheritedVersion, inheritedVersion, List.foldl_cons, if_neg hparent]
        rfl
      · rw [if_pos ⟨hversion, hblank⟩, if_pos hversion, orNone, if_neg hblank]
        rfl
    · rw [if_neg fun h => hversion h.1, if_neg hversion, inheritedVersion, List.foldl_cons]
      split
      · exact ih _
      · exact ih _

theorem pomVersion_eq (root : Element) :
    pomVersion root = (declared root).bind (resolvePlaceholders · (pomProperties root)) :=
  versionFrom_eq _ _ _

/-- A version without blanks around it that is not empty. -/
def IsTrimmed (v : Text) : Prop := Text.strip v = v ∧ v ≠ []

theorem isTrimmed_of_orNone {s v : Text} (h : orNone (Text.strip s) = some v) : IsTrimmed v := by
  obtain ⟨rfl, hne⟩ := orNone_eq_some.1 h
  exact ⟨Text.strip_idempotent s, hne⟩

theorem Element.exists_strip (e : Element) : ∃ s, e.stripped = Text.strip s := by
  cases e with
  | node tag text children => exact ⟨_, rfl⟩

theorem isTrimmed_of_stripped {e : Element} {v : Text} (h : orNone e.stripped = some v) :
    IsTrimmed v := by
  obtain ⟨s, hs⟩ := e.exists_strip
  rw [hs] at h
  exact isTrimmed_of_orNone h

theorem isTrimmed_of_foldl {f : Option Text → Element → Option Text}
    (hf : ∀ before e, (∀ v ∈ before, IsTrimmed v) → ∀ v ∈ f before e, IsTrimmed v)
    (l : List Element) {before : Option Text} (hbefore : ∀ v ∈ before, IsTrimmed v) :
    ∀ v ∈ l.foldl f before, IsTrimmed v := by
  induction l generalizing before with
  | nil => exact hbefore
  | cons e l ih => exact ih (hf before e hbefore)

theorem isTrimmed_of_parentVersion {before : Option Text} (hbefore : ∀ v ∈ before, IsTrimmed v)
    (parent : Element) : ∀ v ∈ parentVersion before parent, IsTrimmed v := by
  refine isTrimmed_of_foldl (fun before e hbefore v hv => ?_) parent.children hbefore
  split at hv
  · exact isTrimmed_of_stripped hv
  · exact hbefore v hv

theorem isTrimmed_of_declared {root : Element} {v : Text} (h : declared root = some v) :
    IsTrimmed v := by
  rcases Option.or_eq_some_iff.1 h with hown | ⟨-, hparent⟩
  · obtain ⟨child, -, hchild⟩ := List.exists_of_findSome?_eq_some hown
    split at hchild
    · exact isTrimmed_of_stripped hchild
    · cases hchild
  · refine isTrimmed_of_foldl (fun before e hbefore v hv => ?_) root.children
      (fun _ h => by cases h) v hparent
    split at hv
    · exact isTrimmed_of_parentVersion hbefore e v hv
    · exact hbefore v hv

/-! ## One substitution -/

/-- A text in which no placeholder starts is substituted too, and comes out as it is. -/
theorem resolvePlaceholders_eq {v : Text} (hv : IsTrimmed v) (properties : Properties) :
    resolvePlaceholders v properties =
      (substitute properties v).bind fun t => orNone (Text.strip t) := by
  rw [resolvePlaceholders]
  split
  · rw [substitute]
    by_cases hmissing : missing properties v = []
    · rw [if_pos hmissing, if_neg (not_not.2 hmissing)]
      rfl
    · rw [if_neg hmissing, if_pos hmissing]
      rfl
  · next hno =>
    have hresolved : ¬ Unresolved v := fun ⟨name, hname⟩ => by
      refine hno (Text.has_iff.2 (List.IsInfix.trans ?_ hname))
      exact (List.prefix_append ['$', '{'] (name ++ ['}'])).isInfix
    rw [substitute_of_resolved _ hresolved, Option.bind_some, hv.1, orNone, if_neg hv.2]

/-- What is returned is the interpolated version, or nothing where there is none. -/
def Interpolated (properties : Properties) (v : Text) (result : Option Text) : Prop :=
  ∀ t, result = some t ↔ ∃ u, Interpolates properties v u ∧ t = Text.strip u ∧ t ≠ []

/-- One substitution does where a property is missing or no placeholder is left. -/
theorem interpolated_iff {v : Text} (hv : IsTrimmed v) (properties : Properties) :
    Interpolated properties v (resolvePlaceholders v properties) ↔
      ∀ t, substitute properties v = some t → ¬ Unresolved t := by
  rw [resolvePlaceholders_eq hv]
  cases hsubst : substitute properties v with
  | none =>
    refine iff_of_true (fun t => iff_of_false (fun h => by cases h) ?_) fun t h => by cases h
    rintro ⟨u, hu, -⟩
    exact not_interpolates_of_missing hsubst u hu
  | some t =>
    constructor
    · rintro h _ ⟨⟩ hunresolved
      have hne : Text.strip t ≠ [] := fun hblank => by
        obtain ⟨name, hname⟩ := unresolved_strip_iff.2 hunresolved
        rw [hblank] at hname
        exact absurd (List.infix_nil.1 hname) (List.cons_ne_nil _ _)
      obtain ⟨u, hu, heq, -⟩ := (h (Text.strip t)).1 (orNone_eq_some.2 ⟨rfl, hne⟩)
      have hstrip := unresolved_strip_iff.2 hunresolved
      rw [heq] at hstrip
      exact hu.2 (unresolved_strip_iff.1 hstrip)
    · intro h s
      rw [Option.bind_some, orNone_eq_some]
      constructor
      · rintro ⟨rfl, hne⟩
        exact ⟨t, (interpolates_iff_of_substitute hsubst (h t rfl)).2 rfl, rfl, hne⟩
      · rintro ⟨u, hu, heq, hne⟩
        obtain rfl := (interpolates_iff_of_substitute hsubst (h t rfl)).1 hu
        exact ⟨heq, hne⟩

theorem substitute_resolved_iff {properties : Properties} {v : Text} :
    (∀ t, substitute properties v = some t → ¬ Unresolved t) ↔
      (∃ name ∈ names v, properties.get name = none) ∨ ¬ Unresolved (expand properties v) := by
  have hmissing : missing properties v = [] ↔ ¬ ∃ name ∈ names v, properties.get name = none := by
    simp [missing, List.filter_eq_nil_iff]
  rw [substitute]
  split
  · next h => simp [hmissing.1 h]
  · next h =>
    exact iff_of_true (fun t h => by cases h) (.inl (not_not.1 fun hnone => h (hmissing.2 hnone)))

/-! ## Plain values -/

/-- The text that tokens come to. -/
def expandTokens (properties : Properties) (l : List Token) : Text :=
  l.flatMap fun
    | .placeholder name => (properties.get name).getD []
    | .char c => [c]

theorem tokensFrom_skip (n : ℕ) (s : Text) : tokensFrom n s = tokensFrom 0 (s.drop n) := by
  induction n generalizing s with
  | zero => rw [List.drop_zero]
  | succ n ih =>
    cases s with
    | nil => rfl
    | cons c s => exact ih s

/-- A value that a substitution puts in plainly: it is there, and holds nothing of a placeholder. -/
def Plain (value : Option Text) : Prop :=
  ∃ v ∈ value, v ≠ [] ∧ '$' ∉ v ∧ '{' ∉ v ∧ '}' ∉ v

theorem infix_of_append {c : Char} {a b r : Text} (ha : c ∉ a) (h : c :: r <:+: a ++ b) :
    c :: r <:+: b := by
  induction a with
  | nil => exact h
  | cons d a ih =>
    rw [List.cons_append, List.infix_cons_iff, List.cons_prefix_cons] at h
    rcases h with ⟨rfl, -⟩ | h
    · exact absurd List.mem_cons_self ha
    · exact ih (fun hc => ha (List.mem_cons_of_mem _ hc)) h

/-- The tokens of a text whose placeholders are substituted plainly. -/
structure PlainTokens (properties : Properties) (s : Text) : Prop where
  closed : ¬ ['$', '{', '}'] <:+: s
  plain : ∀ name, Token.placeholder name ∈ tokensFrom 0 s → Plain (properties.get name)

theorem PlainTokens.tail {properties : Properties} {c : Char} {s : Text}
    (h : PlainTokens properties (c :: s)) (hc : placeholderAt (c :: s) = none) :
    PlainTokens properties s where
  closed hs := h.closed (hs.trans (List.suffix_cons c s).isInfix)
  plain name hname := h.plain name <| by
    rw [tokensFrom, hc]
    exact List.mem_cons_of_mem _ hname

theorem PlainTokens.drop {properties : Properties} {c : Char} {s name : Text}
    (h : PlainTokens properties (c :: s)) (hc : placeholderAt (c :: s) = some name) :
    PlainTokens properties (s.drop (name.length + 2)) where
  closed hs := h.closed <|
    hs.trans ((List.drop_suffix _ _).trans (List.suffix_cons c s)).isInfix
  plain name' hname' := h.plain name' <| by
    rw [tokensFrom, hc]
    exact List.mem_cons_of_mem _ (tokensFrom_skip (name.length + 2) s ▸ hname')

theorem mem_of_char_mem {c : Char} (n : ℕ) (s : Text) (h : Token.char c ∈ tokensFrom n s) :
    c ∈ s := by
  induction s generalizing n with
  | nil => cases n <;> cases h
  | cons d s ih =>
    cases n with
    | succ n => exact List.mem_cons_of_mem _ (ih n h)
    | zero =>
      rw [tokensFrom] at h
      split at h
      · exact List.mem_cons_of_mem _ (ih _ ((List.mem_cons.1 h).resolve_left (by rintro ⟨⟩)))
      · rcases List.mem_cons.1 h with heq | h
        · rw [Token.char.inj heq]
          exact List.mem_cons_self
        · exact List.mem_cons_of_mem _ (ih _ h)

/-- A brace that closes comes from the text. -/
theorem PlainTokens.closing {properties : Properties} {s : Text} (h : PlainTokens properties s)
    (hs : '}' ∈ expandTokens properties (tokensFrom 0 s)) : '}' ∈ s := by
  obtain ⟨token, htoken, hin⟩ := List.mem_flatMap.1 hs
  cases token with
  | char c =>
    rw [List.mem_singleton.1 hin]
    exact mem_of_char_mem 0 s htoken
  | placeholder name =>
    obtain ⟨v, hv, -, -, -, hclosing⟩ := h.plain name htoken
    dsimp only at hin
    rw [Option.mem_def.1 hv] at hin
    exact absurd hin hclosing

/-- A brace that opens first comes first in the text. -/
theorem PlainTokens.opening {properties : Properties} {s t : Text} (h : PlainTokens properties s)
    (hs : expandTokens properties (tokensFrom 0 s) = '{' :: t) :
    ∃ s', s = '{' :: s' ∧ t = expandTokens properties (tokensFrom 0 s') := by
  cases s with
  | nil => cases hs
  | cons c s =>
    cases hc : placeholderAt (c :: s) with
    | none =>
      rw [tokensFrom, hc] at hs
      obtain ⟨rfl, rfl⟩ := List.cons.inj hs
      exact ⟨s, rfl, rfl⟩
    | some name =>
      have hplain := h.plain (Text.strip name) (by rw [tokensFrom, hc]; exact List.mem_cons_self)
      obtain ⟨v, hv, hne, -, hopening, -⟩ := hplain
      rw [tokensFrom, hc, expandTokens, List.flatMap_cons] at hs
      dsimp only at hs
      rw [Option.mem_def.1 hv, Option.getD_some] at hs
      obtain ⟨d, v, rfl⟩ := List.exists_cons_of_ne_nil hne
      obtain ⟨rfl, -⟩ := List.cons.inj hs
      exact absurd List.mem_cons_self hopening

/-- **Plain values bring no placeholder in.** -/
theorem PlainTokens.resolved {properties : Properties} {s : Text}
    (h : PlainTokens properties s) : ¬ Unresolved (expandTokens properties (tokensFrom 0 s)) := by
  induction hn : s.length using Nat.strong_induction_on generalizing s with
  | _ n ih =>
    rintro ⟨name, hname⟩
    cases s with
    | nil => exact absurd (List.infix_nil.1 hname) (List.cons_ne_nil _ _)
    | cons c s =>
      have hlength : s.length < n := by
        rw [← hn, List.length_cons]
        exact Nat.lt_succ_self _
      cases hc : placeholderAt (c :: s) with
      | some found =>
        -- a value is put in; a placeholder can only begin after it
        have hplain := h.plain (Text.strip found) (by rw [tokensFrom, hc]; exact List.mem_cons_self)
        obtain ⟨v, hv, -, hdollar, -, -⟩ := hplain
        rw [tokensFrom, hc] at hname
        dsimp only at hname
        rw [tokensFrom_skip (found.length + 2), expandTokens, List.flatMap_cons] at hname
        dsimp only at hname
        rw [Option.mem_def.1 hv, Option.getD_some] at hname
        have hlater := infix_of_append hdollar hname
        refine ih _ ?_ (h.drop hc) rfl ⟨name, hlater⟩
        rw [List.length_drop]
        exact (Nat.sub_le _ _).trans_lt hlength
      | none =>
        rw [tokensFrom, hc, expandTokens, List.flatMap_cons, List.singleton_append,
          List.infix_cons_iff] at hname
        rcases hname with hhere | hlater
        · -- it begins here: with the brace that follows, and one that closes later
          obtain ⟨rfl, hrest⟩ := List.cons_prefix_cons.1 hhere
          obtain ⟨t, ht⟩ := hrest
          rw [List.cons_append] at ht
          obtain ⟨s', rfl, hs'⟩ := (h.tail hc).opening ht.symm
          have htail : PlainTokens properties s' := (h.tail hc).tail rfl
          have hclosing : '}' ∈ s' := htail.closing <| by
            rw [← hs']
            simp
          have hempty : s'.takeWhile (· ≠ '}') = [] := by
            by_contra hne
            have hfound : placeholderAt ('$' :: '{' :: s') = some (s'.takeWhile (· ≠ '}')) :=
              if_pos ⟨hne, hclosing⟩
            rw [hfound] at hc
            cases hc
          obtain ⟨rest, hsplit⟩ := exists_eq_takeWhile hclosing
          rw [hempty, List.nil_append] at hsplit
          rw [hsplit] at h
          exact h.closed (List.prefix_append ['$', '{', '}'] rest).isInfix
        · exact ih _ hlength (h.tail hc) rfl ⟨name, hlater⟩

/-- **Where the values that a text names are not empty and have no `$`, `{` or `}` in them**, and the
text itself has no `${}`, one substitution leaves no placeholder. -/
theorem resolved_of_plain {properties : Properties} {v : Text} (hclosed : ¬ ['$', '{', '}'] <:+: v)
    (hplain : ∀ name ∈ names v, ∀ value, properties.get name = some value →
      value ≠ [] ∧ '$' ∉ value ∧ '{' ∉ value ∧ '}' ∉ value) :
    (∃ name ∈ names v, properties.get name = none) ∨ ¬ Unresolved (expand properties v) := by
  by_cases hmissing : ∃ name ∈ names v, properties.get name = none
  · exact .inl hmissing
  · have htokens : PlainTokens properties v := by
      refine ⟨hclosed, fun name hname => ?_⟩
      have hmem : name ∈ names v := List.mem_filterMap.2 ⟨_, hname, rfl⟩
      obtain ⟨value, hvalue⟩ :=
        Option.ne_none_iff_exists'.1 fun hnone => hmissing ⟨name, hmem, hnone⟩
      exact ⟨value, hvalue, hplain name hmem value hvalue⟩
    exact .inr htokens.resolved

/-! ## Reading the version -/

/-- `version_at` returns what the pom gives or nothing. -/
theorem pomVersion_of_versionAt {fromstring : Text → Option Element} {cfg : Config} {o : Oracle}
    {repo : Repo} {ref text t : Text} {root : Element}
    (hreads : cfg.declaredIn repo.versionFile = parsePomVersion fromstring)
    (hfile : fileAt o repo repo.versionFile ref = some text) (hroot : fromstring text = some root)
    (h : versionAt cfg o repo ref = some t) : pomVersion root = some t := by
  obtain ⟨text', htext', h⟩ := Option.bind_eq_some_iff.1 h
  obtain rfl := Option.some.inj (hfile.symm.trans htext')
  obtain ⟨raw, hraw, h⟩ := Option.bind_eq_some_iff.1 h
  rw [hreads, parsePomVersion, hroot] at hraw
  split at hraw
  · cases hraw
  · split at h
    · obtain rfl := Option.some.inj h
      exact hraw
    · cases h

/-- **The version is fully resolved exactly where one substitution does it**: where a property that
the declared version names is undefined, or no placeholder is left when each is given its value.
Only then is what `parse_pom_version` returns the interpolated version, and only then is it, with
what `version_at` returns, free of placeholders for every reader of the pom. -/
theorem pom_version_iff (root : Element) :
    ((∀ t, pomVersion root = some t ↔ ∃ v u, declared root = some v ∧
        Interpolates (pomProperties root) v u ∧ t = Text.strip u ∧ t ≠ []) ∧
      (∀ t, pomVersion root = some t → ¬ Unresolved t) ∧
        ∀ (fromstring : Text → Option Element) (cfg : Config) (o : Oracle) (repo : Repo)
          (ref text t : Text), cfg.declaredIn repo.versionFile = parsePomVersion fromstring →
            fileAt o repo repo.versionFile ref = some text → fromstring text = some root →
              versionAt cfg o repo ref = some t → ¬ Unresolved t) ↔
      ∀ v, declared root = some v →
        (∃ name ∈ names v, (pomProperties root).get name = none) ∨
          ¬ Unresolved (expand (pomProperties root) v) := by
  have hinterpolated : (∀ t, pomVersion root = some t ↔ ∃ v u, declared root = some v ∧
      Interpolates (pomProperties root) v u ∧ t = Text.strip u ∧ t ≠ []) ↔
        ∀ v, declared root = some v → Interpolated (pomProperties root) v
          (resolvePlaceholders v (pomProperties root)) := by
    rw [pomVersion_eq]
    cases hdeclared : declared root with
    | none => simp
    | some v => simp [Interpolated]
  have hone : (∀ v, declared root = some v → Interpolated (pomProperties root) v
      (resolvePlaceholders v (pomProperties root))) ↔ ∀ v, declared root = some v →
        (∃ name ∈ names v, (pomProperties root).get name = none) ∨
          ¬ Unresolved (expand (pomProperties root) v) :=
    forall_congr' fun v => forall_congr' fun hv =>
      (interpolated_iff (isTrimmed_of_declared hv) _).trans substitute_resolved_iff
  rw [← hone, ← hinterpolated]
  constructor
  · exact fun h => h.1
  · intro h
    have hresolved : ∀ t, pomVersion root = some t → ¬ Unresolved t := fun t ht => by
      obtain ⟨v, u, -, hu, rfl, -⟩ := (h t).1 ht
      exact fun hstrip => hu.2 (unresolved_strip_iff.1 hstrip)
    exact ⟨h, hresolved, fun fromstring cfg o repo ref text t hreads hfile hroot hversion =>
      hresolved t (pomVersion_of_versionAt hreads hfile hroot hversion)⟩

/-- A pom whose `revision` names `changelist`. -/
def nested : Element :=
  .node "project".toList none
    [.node "version".toList (some (['$', '{'] ++ "revision".toList ++ ['}'])) [],
      .node "properties".toList none
        [.node "revision".toList
            (some ("1.0.1".toList ++ ['$', '{'] ++ "changelist".toList ++ ['}'])) [],
          .node "changelist".toList (some "-SNAPSHOT".toList) []]]

/-- A repository that serves the pom. -/
def pomRepo : Repo := ⟨"P".toList, "svc".toList, "release".toList, "pom.xml".toList, []⟩

def pomConfig : Config where
  enabled := true
  reachable := true
  cloud := false
  repoMap := []
  branchOverride := none
  frames := 5
  frames_pos := Nat.zero_lt_succ _
  maxCandidates := 10
  maxCandidates_pos := Nat.zero_lt_succ _
  pattern := none
  fromstring _ := some nested
  str _ := []

def pomOracle : Oracle where
  commits _ _ := none
  changes _ _ := none
  file _ _ _ := some "<project/>".toList
  pages _ := []

/-- `revision` comes out with the placeholder in it, is read as a version, and `1.0.1-SNAPSHOT` is
what interpolation comes to. -/
theorem nested_unresolved :
    pomVersion nested = some ("1.0.1".toList ++ ['$', '{'] ++ "changelist".toList ++ ['}']) ∧
      versionAt pomConfig pomOracle pomRepo [] =
        some ("1.0.1".toList ++ ['$', '{'] ++ "changelist".toList ++ ['}']) ∧
      Unresolved ("1.0.1".toList ++ ['$', '{'] ++ "changelist".toList ++ ['}']) ∧
      Interpolates (pomProperties nested) (['$', '{'] ++ "revision".toList ++ ['}'])
        "1.0.1-SNAPSHOT".toList := by
  refine ⟨by decide, by decide, ⟨"changelist".toList, "1.0.1".toList, [], by decide⟩,
    ⟨2, by decide⟩, fun ⟨name, h⟩ => ?_⟩
  have hdollar : '$' ∈ "1.0.1-SNAPSHOT".toList := h.subset List.mem_cons_self
  exact absurd hdollar (by decide)

end ResidentCrm.Dlt.Pom
