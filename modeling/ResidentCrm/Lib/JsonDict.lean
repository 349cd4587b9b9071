import ResidentCrm.Lib.JsonRoundTrip

/-!
# Dicts in one line

A flat dict as a text. How the strings are escaped, and the space after a comma and after a colon,
are a `Style`: `json.dumps` writes in one (`ascii`), compact JSON that escapes what it has to and no
more is another (`compact`). What is written in a style is read back (`Style.loads_dict`).

A quote within a string is escaped, so from within the strings of a dict no dict is read that has an
item (`Style.object_of_between`).
-/

namespace ResidentCrm

/-! ## Escapes that are read -/

/-- The two halves of a surrogate pair are one character. -/
theorem readEscape_pair {n m : ℕ} (hn : 0xd800 ≤ n ∧ n < 0xdc00) (hm : 0xdc00 ≤ m ∧ m < 0xe000)
    (s : Text) : readEscape ((hexEscape n).tail ++ (hexEscape m ++ s)) =
      some (Char.ofNat (0x10000 + 1024 * (n - 0xd800) + (m - 0xdc00)), s) := by
  have hhigh := readUnit_hexEscape (n := n) (by omega) (hexEscape m ++ s)
  have hlow := readUnit_hexEscape (n := m) (by omega) s
  have htail : (hexEscape n).tail = 'u' :: (hexEscape n).tail.tail := rfl
  have hwhole : hexEscape m = '\\' :: 'u' :: (hexEscape m).tail.tail := rfl
  rw [htail, List.cons_append, readEscape, hhigh]
  simp only [Option.bind_eq_bind, Option.bind_some]
  rw [if_pos hn, hwhole, List.cons_append, List.cons_append]
  simp only [hlow, Option.bind_some]
  rw [if_pos hm]

/-- One character of a string is read back, of ASCII. -/
theorem readString_escape (n : ℕ) (c : Char) (s : Text) :
    readString (n + 1) (escape c ++ s) = (readString n s).map fun (t, s) => (c :: t, s) := by
  have hcases := toNat_cases c
  rcases escape_cases c with ⟨e, he, hc⟩ | ⟨hquote, hback, hplain, hc⟩ | ⟨hbmp, hc⟩ | ⟨hbmp, hc⟩
  · rw [hc]
    exact readString_backslash (readEscape_short _ he s)
  · rw [hc, List.singleton_append, readString, if_neg hquote, if_neg hback, if_neg (by omega)]
  · have hhead : hexEscape c.toNat = '\\' :: (hexEscape c.toNat).tail := rfl
    rw [hc, hhead, List.cons_append, readString_backslash (readEscape_hexEscape hbmp (by omega) s),
      Char.ofNat_toNat]
  · have hhead : ∀ n, hexEscape n = '\\' :: (hexEscape n).tail := fun n => rfl
    have hpair := readEscape_pair (n := 55296 + (c.toNat - 65536) / 1024)
      (m := 56320 + (c.toNat - 65536) % 1024) (by omega) (by omega) s
    have hback : 65536 + 1024 * (55296 + (c.toNat - 65536) / 1024 - 55296) +
        (56320 + (c.toNat - 65536) % 1024 - 56320) = c.toNat := by omega
    rw [hback, Char.ofNat_toNat] at hpair
    rw [hc, List.append_assoc, hhead (55296 + _), List.cons_append]
    exact readString_backslash hpair

/-! ## Styles -/

/-- How strings are escaped, and what stands after a comma and after a colon. -/
structure Style where
  escape : Char → Text
  space : Text
  reads : ∀ n c s, readString (n + 1) (escape c ++ s) =
    (readString n s).map fun (t, s) => (c :: t, s)
  head_escape : ∀ c, ∃ d s, escape c = d :: s ∧ (d = c ∨ d = '\\')
  quote_escaped : ∀ c, '"' ∈ escape c → c = '"' ∧ escape c = ['\\', '"']
  spaces : ∀ c ∈ space, isJsonSpace c = true

theorem quote_notMem_hexEscape {n : ℕ} (h : n < 0x10000) : '"' ∉ hexEscape n := by
  have hdigit : ∀ k < 16, '"' ≠ hexDigit k := by decide
  simp only [hexEscape, List.mem_cons, List.not_mem_nil, or_false, not_or]
  exact ⟨by decide, by decide, hdigit _ (by omega), hdigit _ (by omega), hdigit _ (by omega),
    hdigit _ (by omega)⟩

theorem quote_notMem_short {c : Char} (h : c ≠ '"') {e : Char} (he : (c, e) ∈ shortEscapes) :
    '"' ∉ ['\\', e] := by
  have hquote : ∀ p ∈ shortEscapes, '"' ∈ ['\\', p.2] → p.1 = '"' := by decide
  exact fun hmem => h (hquote _ he hmem)

theorem quote_notMem_escape {c : Char} (h : c ≠ '"') : '"' ∉ escape c := by
  have hcases := toNat_cases c
  rcases escape_cases c with ⟨e, he, hc⟩ | ⟨-, -, -, hc⟩ | ⟨hbmp, hc⟩ | ⟨hbmp, hc⟩
  · rw [hc]
    exact quote_notMem_short h he
  · rw [hc]
    exact fun hmem => h (List.mem_singleton.1 hmem).symm
  · rw [hc]
    exact quote_notMem_hexEscape hbmp
  · rw [hc, List.mem_append, not_or]
    exact ⟨quote_notMem_hexEscape (by omega), quote_notMem_hexEscape (by omega)⟩

theorem quote_notMem_escapeRaw {c : Char} (h : c ≠ '"') : '"' ∉ escapeRaw c := by
  rcases escapeRaw_cases c with ⟨e, he, hc⟩ | ⟨hlow, hc⟩ | ⟨-, -, -, hc⟩
  · rw [hc]
    exact quote_notMem_short h he
  · rw [hc]
    exact quote_notMem_hexEscape (by omega)
  · rw [hc]
    exact fun hmem => h (List.mem_singleton.1 hmem).symm

theorem head_escapeRaw (c : Char) : ∃ d s, escapeRaw c = d :: s ∧ (d = c ∨ d = '\\') := by
  rcases escapeRaw_cases c with ⟨e, -, hc⟩ | ⟨-, hc⟩ | ⟨-, -, -, hc⟩
  · exact ⟨_, _, hc, .inr rfl⟩
  · exact ⟨_, _, hc, .inr rfl⟩
  · exact ⟨_, _, hc, .inl rfl⟩

theorem head_escape (c : Char) : ∃ d s, escape c = d :: s ∧ (d = c ∨ d = '\\') := by
  rcases escape_cases c with ⟨e, -, hc⟩ | ⟨-, -, -, hc⟩ | ⟨-, hc⟩ | ⟨-, hc⟩
  · exact ⟨_, _, hc, .inr rfl⟩
  · exact ⟨_, _, hc, .inl rfl⟩
  · exact ⟨_, _, hc, .inr rfl⟩
  · exact ⟨_, _, hc, .inr rfl⟩

/-- `json.dumps` by default. -/
def Style.ascii : Style where
  escape := ResidentCrm.escape
  space := [' ']
  reads := readString_escape
  head_escape := ResidentCrm.head_escape
  quote_escaped c hc := by
    by_cases hquote : c = '"'
    · subst hquote
      exact ⟨rfl, rfl⟩
    · exact absurd hc (quote_notMem_escape hquote)
  spaces c hc := by
    rw [List.mem_singleton.1 hc]
    rfl

/-- Compact JSON, which escapes what it has to. -/
def Style.compact : Style where
  escape := escapeRaw
  space := []
  reads := readString_escapeRaw
  head_escape := head_escapeRaw
  quote_escaped c hc := by
    by_cases hquote : c = '"'
    · subst hquote
      exact ⟨rfl, rfl⟩
    · exact absurd hc (quote_notMem_escapeRaw hquote)
  spaces := nofun

namespace Style

variable (style : Style)

/-- A string between quotes. -/
def string (s : Text) : Text := '"' :: (s.flatMap style.escape ++ ['"'])

def scalar : Scalar → Text
  | .string s => style.string s
  | v => v.dumps

/-- A key, a colon and a value. -/
def item (item : Text × Scalar) : Text :=
  style.string item.1 ++ ':' :: (style.space ++ style.scalar item.2)

/-- The items after the first, and the closing bracket. -/
def rest : List (Text × Scalar) → Text
  | [] => ['}']
  | item :: items => ',' :: (style.space ++ style.item item ++ rest items)

def dict : List (Text × Scalar) → Text
  | [] => ['{', '}']
  | item :: items => '{' :: (style.item item ++ style.rest items)

/-- The items as a value's. -/
def fields (items : List (Text × Scalar)) : List (Text × Json) :=
  items.map fun item => (item.1, .scalar item.2)

/-! ## Reading back -/

theorem escape_ne_nil (c : Char) : style.escape c ≠ [] := by
  obtain ⟨d, s, h, -⟩ := style.head_escape c
  rw [h]
  exact List.cons_ne_nil _ _

theorem string_append (t s : Text) :
    style.string t ++ s = '"' :: (t.flatMap style.escape ++ '"' :: s) := by
  simp [string]

theorem length_string (t : Text) : t.length + 2 ≤ (style.string t).length := by
  have := length_le_flatMap style.escape_ne_nil t
  rw [string, List.length_cons, List.length_append, List.length_singleton]
  omega

/-- But for strings a scalar is written alike in every style. -/
theorem scalar_cases (v : Scalar) : (∃ t, v = .string t) ∨ style.scalar v = v.write := by
  rcases v with _ | b | number | x | t
  · exact .inr rfl
  · exact .inr rfl
  · exact .inr rfl
  · exact .inr rfl
  · exact .inl ⟨t, rfl⟩

theorem skipSpace_scalar (v : Scalar) (s : Text) :
    skipSpace (style.space ++ (style.scalar v ++ s)) = style.scalar v ++ s := by
  rw [skipSpace_append style.spaces]
  rcases style.scalar_cases v with ⟨t, rfl⟩ | h
  · exact skipSpace_cons rfl _
  · rw [h]
    exact Json.skipSpace_write oneLine 0 (.scalar v) s

theorem readValue_scalar {n : ℕ} {v : Scalar} {s : Text} (hvalid : (Json.scalar v).Valid)
    (hlength : (style.scalar v).length ≤ n) (hs : EndsNumber s) :
    readValue n (style.scalar v ++ s) = some (.scalar v, s) := by
  rcases style.scalar_cases v with ⟨t, rfl⟩ | h
  · have hlong : t.length + 2 ≤ n := Nat.le_trans (style.length_string t) hlength
    obtain ⟨n, rfl⟩ := Nat.exists_eq_succ_of_ne_zero (Nat.ne_of_gt (show 0 < n by omega))
    have hstring : style.scalar (.string t) = style.string t := rfl
    rw [hstring, string_append, readValue, readString_flatMap style.reads _ _ (by omega)]
    rfl
  · rw [h] at hlength ⊢
    exact readValue_write oneLine (n := 0) hvalid hlength hs

theorem readField_item {k m : ℕ} {item : Text × Scalar} {s : Text} (hkey : item.1.length < m)
    (hvalid : (Json.scalar item.2).Valid) (hlength : (style.scalar item.2).length ≤ k)
    (hs : EndsNumber s) :
    readField (readValue k) m (style.item item ++ s) = some ((item.1, .scalar item.2), s) := by
  rw [Style.item, List.append_assoc, string_append, readField,
    readString_flatMap style.reads _ _ hkey]
  simp only [Option.bind_eq_bind, Option.bind_some]
  rw [List.cons_append, skipSpace_cons rfl]
  simp only [List.append_assoc, style.skipSpace_scalar, style.readValue_scalar hvalid hlength hs,
    Option.bind_some]

theorem length_item (item : Text × Scalar) :
    item.1.length + (style.scalar item.2).length + 3 ≤ (style.item item).length := by
  have := style.length_string item.1
  rw [Style.item, List.length_append, List.length_cons, List.length_append]
  omega

theorem endsNumber_rest (items : List (Text × Scalar)) : EndsNumber (style.rest items) := by
  cases items with
  | nil => exact startsIn_cons.2 rfl
  | cons item items => exact startsIn_cons.2 rfl

theorem skipSpace_item (item : Text × Scalar) (s : Text) :
    skipSpace (style.item item ++ s) = style.item item ++ s := skipSpace_cons rfl _

theorem readRest_rest {k m : ℕ} {items : List (Text × Scalar)}
    (hvalid : ∀ item ∈ items, (Json.scalar item.2).Valid) (hk : (style.rest items).length ≤ k)
    (hm : (style.rest items).length ≤ m) :
    readRest '}' (readField (readValue k) k) m (style.rest items) = some (fields items, []) := by
  induction items generalizing m with
  | nil =>
    obtain ⟨m, rfl⟩ := Nat.exists_eq_succ_of_ne_zero (Nat.ne_of_gt hm)
    rfl
  | cons item items ih =>
    rw [rest, List.length_cons, List.length_append, List.length_append] at hk hm
    have hlength := style.length_item item
    obtain ⟨m, rfl⟩ := Nat.exists_eq_succ_of_ne_zero (Nat.ne_of_gt (show 0 < m by omega))
    have hfield : readField (readValue k) k (style.item item ++ style.rest items) =
        some ((item.1, .scalar item.2), style.rest items) :=
      style.readField_item (by omega) (hvalid item List.mem_cons_self) (by omega)
        (style.endsNumber_rest items)
    have hrest := ih (m := m) (fun i hi => hvalid i (List.mem_cons_of_mem _ hi)) (by omega)
      (by omega)
    rw [rest, readRest, skipSpace_cons rfl]
    simp only [if_true, List.append_assoc, skipSpace_append style.spaces, style.skipSpace_item,
      hfield, hrest, Option.bind_eq_bind, Option.bind_some]
    rfl

/-- **A dict that is written is read back.** -/
theorem loads_dict {items : List (Text × Scalar)}
    (hvalid : ∀ item ∈ items, (Json.scalar item.2).Valid) (hkeys : (items.map Prod.fst).Nodup) :
    loads (style.dict items) = some (.object (fields items)) := by
  cases items with
  | nil => rfl
  | cons item items =>
    have hlength := style.length_item item
    generalize hsize : (style.dict (item :: items)).length = n
    rw [dict, List.length_cons, List.length_append] at hsize
    have hfield : readField (readValue n) n (style.item item ++ style.rest items) =
        some ((item.1, .scalar item.2), style.rest items) :=
      style.readField_item (by omega) (hvalid item List.mem_cons_self) (by omega)
        (style.endsNumber_rest items)
    have hrest := style.readRest_rest (k := n) (m := n)
      (fun i hi => hvalid i (List.mem_cons_of_mem _ hi)) (by omega) (by omega)
    have hfields : (item.1, Json.scalar item.2) :: fields items = fields (item :: items) := rfl
    have hnodup : ((fields (item :: items)).map Prod.fst).Nodup := by
      rw [fields, List.map_map]
      exact hkeys
    obtain ⟨l, hitem⟩ : ∃ l, style.item item = '"' :: l := ⟨_, rfl⟩
    have hread : readValue (n + 1) (style.dict (item :: items)) =
        some (.object (fields (item :: items)), []) := by
      rw [readValue.eq_def]
      simp only [dict, readAll, style.skipSpace_item]
      rw [hitem, List.cons_append] at hfield ⊢
      simp only [show ('"' : Char) ≠ '}' by decide, if_false, hfield, hrest, Option.bind_eq_bind,
        Option.bind_some, Option.map_some, hfields, dictOf_eq hnodup]
    have hspace : skipSpace (style.dict (item :: items)) = style.dict (item :: items) :=
      skipSpace_cons rfl _
    have hlong : (style.dict (item :: items)).length = n := by
      rw [← hsize, dict, List.length_cons, List.length_append]
    rw [loads, hspace, hlong, hread]
    rfl

/-! ## Between the quotes -/

/-- A quote within a string stands after a backslash. -/
theorem backslash_of_quote {t front s : Text} (h : t.flatMap style.escape = front ++ '"' :: s) :
    ∃ front', front = front' ++ ['\\'] := by
  induction t generalizing front with
  | nil => exact absurd h.symm (List.append_ne_nil_of_right_ne_nil _ (List.cons_ne_nil _ _))
  | cons c t ih =>
    rw [List.flatMap_cons] at h
    rcases List.append_eq_append_iff.1 h with ⟨after, rfl, hafter⟩ | ⟨after, hc, hafter⟩
    · obtain ⟨front', rfl⟩ := ih hafter
      exact ⟨style.escape c ++ front', (List.append_assoc ..).symm⟩
    · cases after with
      | nil =>
        obtain ⟨front', hnil⟩ := @ih [] hafter.symm
        exact absurd hnil.symm (List.append_ne_nil_of_right_ne_nil _ (List.cons_ne_nil _ _))
      | cons d after =>
        obtain ⟨rfl, -⟩ := List.cons.inj hafter
        have hmem : '"' ∈ style.escape c := hc ▸ by simp
        rw [(style.quote_escaped c hmem).2] at hc
        match front, hc with
        | ['\\'], _ => exact ⟨[], rfl⟩
        | [], hc => exact absurd (List.cons.inj hc).1 (by decide)
        | _ :: _ :: front, hc => simp at hc

/-- The first quote after a brace within a string, and after spaces, is beyond the string. -/
theorem skipSpace_within {t front s r u : Text} (h : t.flatMap style.escape = front ++ '{' :: s)
    (hquote : skipSpace (s ++ r) = '"' :: u) : skipSpace r = '"' :: u := by
  by_cases hblank : skipSpace s = []
  · rw [skipSpace, List.dropWhile_append_of_pos (List.dropWhile_eq_nil_iff.1 hblank)] at hquote
    exact hquote
  · exfalso
    rw [skipSpace_append_of_ne_nil hblank] at hquote
    obtain ⟨d, l, hs⟩ := List.exists_cons_of_ne_nil hblank
    rw [hs] at hquote
    obtain ⟨rfl, -⟩ := List.cons.inj hquote
    have hparts : s.takeWhile isJsonSpace ++ '"' :: l = s := by
      rw [← hs]
      exact List.takeWhile_append_dropWhile
    have hbefore : t.flatMap style.escape =
        (front ++ '{' :: s.takeWhile isJsonSpace) ++ '"' :: l := by
      rw [h, List.append_assoc, List.cons_append, hparts]
    obtain ⟨front', hfront⟩ := style.backslash_of_quote hbefore
    -- what stands before the quote is the brace or a space
    have hlast : '\\' ∈ '{' :: s.takeWhile isJsonSpace := by
      have hlast := congrArg List.getLast? hfront
      rw [List.getLast?_append_of_ne_nil _ (List.cons_ne_nil _ _), List.getLast?_concat] at hlast
      exact List.mem_of_getLast? hlast
    rcases List.mem_cons.1 hlast with h | h
    · exact absurd h (by decide)
    · exact absurd (List.mem_takeWhile_imp h) (by decide)

/-- Two strings of a dict, the second under `key`, and what stands between them. -/
def between (key a b : Text) : Text :=
  a.flatMap style.escape ++ '"' :: ',' :: (style.space ++ (style.string key ++
    ':' :: (style.space ++ '"' :: b.flatMap style.escape)))

theorem eq_of_readString {n : ℕ} {u s t r : Text} (hu : ∀ c ∈ u, c ≠ '"' ∧ c ≠ '\\')
    (h : readString n (u ++ '"' :: s) = some (t, r)) : r = s := by
  induction u generalizing n t with
  | nil =>
    cases n with
    | zero => cases h
    | succ n => exact ((Prod.mk.inj (Option.some.inj h)).2).symm
  | cons c u ih =>
    cases n with
    | zero => cases h
    | succ n =>
      obtain ⟨hquote, hback⟩ := hu c List.mem_cons_self
      rw [List.cons_append, readString, if_neg hquote, if_neg hback] at h
      split_ifs at h
      obtain ⟨⟨t', r'⟩, hread, hpair⟩ := Option.map_eq_some_iff.1 h
      obtain ⟨-, rfl⟩ := Prod.mk.inj hpair
      exact ih (fun c hc => hu c (List.mem_cons_of_mem _ hc)) hread

/-- What stands between two strings of a dict is no field. -/
theorem readField_between {n : ℕ} {read : Text → Option (Json × Text)} {key s : Text}
    (hkey : ∃ c ∈ key.head?, isJsonSpace c = false ∧ c ≠ ':') :
    readField read n ('"' :: ',' :: (style.space ++ (style.string key ++ s))) = none := by
  obtain ⟨c, hc, hspace, hcolon⟩ := hkey
  obtain ⟨key, rfl⟩ := List.head?_eq_some_iff.1 hc
  obtain ⟨d, l, hescape, hd⟩ := style.head_escape c
  have hfirst : isJsonSpace d = false ∧ d ≠ ':' := by
    rcases hd with rfl | rfl
    · exact ⟨hspace, hcolon⟩
    · exact ⟨rfl, by decide⟩
  have hplain : ∀ c ∈ ',' :: style.space, c ≠ '"' ∧ c ≠ '\\' := by
    intro c hc
    rcases List.mem_cons.1 hc with rfl | hc
    · exact ⟨by decide, by decide⟩
    · have hspace := style.spaces c hc
      constructor
      all_goals
        rintro rfl
        cases hspace
  rw [readField, style.string_append]
  cases hread : readString n (',' :: (style.space ++ '"' ::
      ((c :: key).flatMap style.escape ++ '"' :: s))) with
  | none => rfl
  | some read =>
    obtain ⟨t, r⟩ := read
    obtain rfl := eq_of_readString (u := ',' :: style.space) hplain hread
    simp only [Option.bind_eq_bind, Option.bind_some, List.flatMap_cons, hescape,
      List.cons_append]
    rw [skipSpace_cons hfirst.1]
    split
    · next heq => exact absurd (List.cons.inj heq).1 hfirst.2
    · rfl

/-- The first quote after a brace within two strings of a dict, and after spaces, is the one that
ends the first of them. -/
theorem skipSpace_between {key a b front s u : Text} (hbrace : '{' ∉ style.string key)
    (h : style.between key a b = front ++ '{' :: s) (hquote : skipSpace s = '"' :: u) :
    ∃ rest, '"' :: u = '"' :: ',' :: (style.space ++ (style.string key ++ rest)) := by
  have hspaces : '{' ∉ style.space := fun hmem => absurd (style.spaces _ hmem) (by decide)
  rcases List.append_eq_append_iff.1 h with ⟨after, -, hb⟩ | ⟨after, ha, hrest⟩
  · -- the brace is in the second string
    have hmiddle : ∃ middle, middle ++ b.flatMap style.escape = after ++ '{' :: s ∧
        '{' ∉ middle := by
      refine ⟨'"' :: ',' :: (style.space ++ (style.string key ++ ':' :: (style.space ++ ['"']))),
        ?_, ?_⟩
      · rw [← hb]
        simp
      · simp [hspaces, hbrace]
    obtain ⟨middle, hmiddle, hnot⟩ := hmiddle
    have hstring : ∃ front', b.flatMap style.escape = front' ++ '{' :: s := by
      rcases List.append_eq_append_iff.1 hmiddle with ⟨front', -, hfront⟩ | ⟨tail, rfl, htail⟩
      · exact ⟨front', hfront⟩
      · cases tail with
        | nil => exact ⟨[], htail.symm⟩
        | cons c tail =>
          obtain ⟨rfl, -⟩ := List.cons.inj htail
          exact absurd (by simp) hnot
    obtain ⟨front', hfront⟩ := hstring
    have hnone := style.skipSpace_within (r := []) hfront (by rwa [List.append_nil])
    cases hnone
  · cases after with
    | nil => exact absurd (List.cons.inj hrest).1 (by decide)
    | cons c after =>
      rw [List.cons_append] at hrest
      obtain ⟨rfl, rfl⟩ := List.cons.inj hrest
      have hend := style.skipSpace_within ha hquote
      rw [skipSpace_cons rfl] at hend
      exact ⟨_, hend.symm⟩

/-- **From within two strings of a dict no dict is read that has an item.** -/
theorem object_of_between {key a b front m s : Text} {v : Json}
    (hkey : ∃ c ∈ key.head?, isJsonSpace c = false ∧ c ≠ ':') (hbrace : '{' ∉ style.string key)
    (h : style.between key a b = front ++ '{' :: (m ++ s)) (hv : loads ('{' :: m) = some v) :
    v = .object [] := by
  have hlonger : ∃ n r, readValue n ('{' :: (m ++ s)) = some (v, r) := by
    simp only [loads, Option.bind_eq_bind, Option.bind_eq_some_iff] at hv
    obtain ⟨⟨v', r⟩, hread, hend⟩ := hv
    rw [skipSpace_cons rfl] at hread
    split_ifs at hend
    obtain rfl := Option.some.inj hend
    exact ⟨_, _, readValue_append (Nat.le_refl _) s hread (.inr (.inr (.inr rfl)))⟩
  obtain ⟨n, r, hread⟩ := hlonger
  cases n with
  | zero => cases hread
  | succ n =>
    rw [readValue] at hread
    obtain ⟨⟨pairs, r'⟩, hall, hpair⟩ := Option.map_eq_some_iff.1 hread
    obtain ⟨rfl, -⟩ := Prod.mk.inj hpair
    unfold readAll at hall
    split at hall
    · cases hall
    · next c u hskip =>
      split_ifs at hall with hclose
      · obtain ⟨rfl, -⟩ := Prod.mk.inj (Option.some.inj hall)
        rfl
      · exfalso
        by_cases hc : c = '"'
        · obtain ⟨rest, hrest⟩ := style.skipSpace_between hbrace h (hc ▸ hskip)
          rw [hc, hrest, style.readField_between hkey] at hall
          cases hall
        · have hnone : readField (readValue n) n (c :: u) = none := by
            rw [readField.eq_def]
            split
            · next heq => exact absurd (List.cons.inj heq).1 hc
            · rfl
          rw [hnone] at hall
          cases hall

end Style

end ResidentCrm
