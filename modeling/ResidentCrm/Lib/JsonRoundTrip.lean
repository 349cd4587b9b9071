import ResidentCrm.Lib.JsonText

/-!
# What is written is read

`loads_write`: a value whose numbers are numbers of JSON and whose dicts have no key twice is read
back from its text. `loads_eq_none_of_cut`: the text of a string, an array or an object that is cut
before its end is not read, since what is read of a text is read of every longer one
(`readValue_append`).
-/

namespace ResidentCrm

universe u

/-! ## Values that are written -/

mutual

/-- The value is one of JSON: its numbers are, and no dict has a key twice. -/
def Json.Valid : Json → Prop
  | .scalar (.number n) => isNumberText n.repr = true
  | .scalar _ => True
  | .array l => Json.ValidItems l
  | .object items => (items.map Prod.fst).Nodup ∧ Json.ValidFields items

def Json.ValidItems : List Json → Prop
  | [] => True
  | v :: l => v.Valid ∧ Json.ValidItems l

def Json.ValidFields : List (Text × Json) → Prop
  | [] => True
  | (_, v) :: items => v.Valid ∧ Json.ValidFields items

end

mutual

/-- The strings and the keys of a value. -/
def Json.texts : Json → List Text
  | .scalar (.string s) => [s]
  | .scalar _ => []
  | .array l => Json.textsOfItems l
  | .object items => Json.textsOfFields items

def Json.textsOfItems : List Json → List Text
  | [] => []
  | v :: l => v.texts ++ Json.textsOfItems l

def Json.textsOfFields : List (Text × Json) → List Text
  | [] => []
  | (key, v) :: items => key :: v.texts ++ Json.textsOfFields items

end

/-! ## Spaces -/

theorem skipSpace_append {ws : Text} (h : ∀ c ∈ ws, isJsonSpace c = true) (s : Text) :
    skipSpace (ws ++ s) = skipSpace s := List.dropWhile_append_of_pos h

theorem skipSpace_cons {c : Char} (h : isJsonSpace c = false) (s : Text) :
    skipSpace (c :: s) = c :: s := List.dropWhile_cons_of_neg (by rw [h]; decide)

section

variable (lay : Layout)

theorem Layout.skipSpace_first (n : ℕ) (s : Text) : skipSpace (lay.first n ++ s) = skipSpace s :=
  skipSpace_append (fun c hc => lay.spaces n c (by simp [hc])) s

theorem Layout.skipSpace_next (n : ℕ) (s : Text) : skipSpace (lay.next n ++ s) = skipSpace s :=
  skipSpace_append (fun c hc => lay.spaces n c (by simp [hc])) s

theorem Layout.skipSpace_last (n : ℕ) (s : Text) : skipSpace (lay.last n ++ s) = skipSpace s :=
  skipSpace_append (fun c hc => lay.spaces n c (by simp [hc])) s

/-- The first character of a value tells its kind. -/
theorem Json.write_eq_cons (n : ℕ) (v : Json) : ∃ c l, v.write lay n = c :: l ∧
    isJsonSpace c = false ∧ c ≠ ']' ∧ c ≠ '}' := by
  rcases v with (_ | (_ | _) | number | (_ | _ | _) | s) | (_ | ⟨v, l⟩) | (_ | ⟨⟨key, v⟩, items⟩)
  case scalar.number =>
    obtain ⟨c, l, hrepr⟩ := List.exists_cons_of_ne_nil number.ne_nil
    have hnumeric : isNumeric c = true := number.numeric c (by rw [hrepr]; exact List.mem_cons_self)
    refine ⟨c, l, hrepr, ?_, ?_, ?_⟩
    · rw [Bool.eq_false_iff]
      intro hspace
      simp only [isJsonSpace, Bool.or_eq_true, decide_eq_true_eq] at hspace
      rcases hspace with ((rfl | rfl) | rfl) | rfl <;> cases hnumeric
    · rintro rfl
      cases hnumeric
    · rintro rfl
      cases hnumeric
  all_goals exact ⟨_, _, rfl, rfl, by decide, by decide⟩

theorem Json.length_write_pos (n : ℕ) (v : Json) : 0 < (v.write lay n).length := by
  obtain ⟨c, l, h, -⟩ := v.write_eq_cons lay n
  rw [h]
  exact Nat.succ_pos _

/-- A value is not skipped over. -/
theorem Json.skipSpace_write (n : ℕ) (v : Json) (s : Text) :
    skipSpace (v.write lay n ++ s) = v.write lay n ++ s := by
  obtain ⟨c, l, h, hspace, -⟩ := v.write_eq_cons lay n
  rw [h, List.cons_append, skipSpace_cons hspace]

/-- What cannot go on a number. -/
def EndsNumber (s : Text) : Prop := StartsIn (fun c => isNumeric c = false) s

theorem endsNumber_space {ws : Text} (h : ∀ c ∈ ws, isJsonSpace c = true) {c : Char} {s : Text}
    (hc : isNumeric c = false) : EndsNumber (ws ++ c :: s) := by
  cases ws with
  | nil => exact startsIn_cons.2 hc
  | cons d ws =>
    refine startsIn_cons.2 ?_
    have hspace := h d List.mem_cons_self
    simp only [isJsonSpace, Bool.or_eq_true, decide_eq_true_eq] at hspace
    rcases hspace with ((rfl | rfl) | rfl) | rfl <;> rfl

theorem endsNumber_items (n : ℕ) (l : List Json) (s : Text) :
    EndsNumber (Json.writeItems lay n l ++ s) := by
  cases l with
  | nil =>
    rw [Json.writeItems, List.append_assoc]
    exact endsNumber_space (fun c hc => lay.spaces n c (by simp [hc])) rfl
  | cons v l => exact startsIn_cons.2 rfl

theorem endsNumber_fields (n : ℕ) (items : List (Text × Json)) (s : Text) :
    EndsNumber (Json.writeFields lay n items ++ s) := by
  cases items with
  | nil =>
    rw [Json.writeFields, List.append_assoc]
    exact endsNumber_space (fun c hc => lay.spaces n c (by simp [hc])) rfl
  | cons item items => exact startsIn_cons.2 rfl

end

/-! ## Strings and numbers -/

theorem readHexDigit_hexDigit : ∀ n < 16, readHexDigit (hexDigit n) = some n := by decide

theorem readUnit_hexEscape {n : ℕ} (h : n < 0x10000) (s : Text) :
    readUnit ((hexEscape n).tail.tail ++ s) = some (n, s) := by
  simp only [hexEscape, List.tail_cons, List.cons_append, List.nil_append, readUnit]
  rw [readHexDigit_hexDigit _ (by omega), readHexDigit_hexDigit _ (by omega),
    readHexDigit_hexDigit _ (by omega), readHexDigit_hexDigit _ (by omega)]
  have hback : 4096 * (n / 4096) + 256 * (n / 256 % 16) + 16 * (n / 16 % 16) + n % 16 = n := by
    omega
  simp only [Option.bind_eq_bind, Option.bind_some, hback]

theorem readEscape_hexEscape {n : ℕ} (h : n < 0x10000) (hn : n < 0xd800 ∨ 0xe000 ≤ n) (s : Text) :
    readEscape ((hexEscape n).tail ++ s) = some (Char.ofNat n, s) := by
  have htail : (hexEscape n).tail = 'u' :: (hexEscape n).tail.tail := rfl
  rw [htail, List.cons_append, readEscape, readUnit_hexEscape h]
  simp only [Option.bind_eq_bind, Option.bind_some]
  rw [if_neg (by omega), if_neg (by omega)]

theorem readEscape_short : ∀ p ∈ shortEscapes, ∀ s, readEscape (p.2 :: s) = some (p.1, s) := by
  intro p hp s
  simp only [shortEscapes, List.mem_cons, List.not_mem_nil, or_false] at hp
  rcases hp with rfl | rfl | rfl | rfl | rfl | rfl | rfl <;> rfl

theorem readString_backslash {n : ℕ} {s rest : Text} {c : Char}
    (h : readEscape s = some (c, rest)) :
    readString (n + 1) ('\\' :: s) = (readString n rest).map fun (t, s) => (c :: t, s) := by
  rw [readString, if_neg (by decide), if_pos rfl, h]
  simp only [Option.bind_eq_bind, Option.bind_some]
  cases readString n rest <;> rfl

/-- One character of a string is read back. -/
theorem readString_escapeRaw (n : ℕ) (c : Char) (s : Text) :
    readString (n + 1) (escapeRaw c ++ s) =
      (readString n s).map fun (t, s) => (c :: t, s) := by
  rcases escapeRaw_cases c with ⟨e, he, hc⟩ | ⟨hlow, hc⟩ | ⟨hquote, hback, hplain, hc⟩
  · rw [hc]
    exact readString_backslash (readEscape_short _ he s)
  · have hhead : hexEscape c.toNat = '\\' :: (hexEscape c.toNat).tail := rfl
    rw [hc, hhead, List.cons_append,
      readString_backslash (readEscape_hexEscape (by omega) (by omega) s), Char.ofNat_toNat]
  · rw [hc, List.singleton_append, readString, if_neg hquote, if_neg hback, if_neg (by omega)]

/-- A string is read back where each of its characters is. -/
theorem readString_flatMap {esc : Char → Text} (hesc : ∀ n c s, readString (n + 1) (esc c ++ s) =
    (readString n s).map fun (t, s) => (c :: t, s)) {n : ℕ} (t s : Text) (h : t.length < n) :
    readString n (t.flatMap esc ++ '"' :: s) = some (t, s) := by
  induction t generalizing n with
  | nil =>
    obtain ⟨n, rfl⟩ := Nat.exists_eq_succ_of_ne_zero (Nat.ne_of_gt h)
    rfl
  | cons c t ih =>
    obtain ⟨n, rfl⟩ := Nat.exists_eq_succ_of_ne_zero (Nat.ne_of_gt (Nat.lt_of_le_of_lt
      (Nat.zero_le _) h))
    rw [List.flatMap_cons, List.append_assoc, hesc, ih (Nat.lt_of_succ_lt_succ h)]
    rfl

theorem readString_quoted {n : ℕ} (t s : Text) (h : t.length < n) :
    readString n (t.flatMap escapeRaw ++ '"' :: s) = some (t, s) :=
  readString_flatMap readString_escapeRaw t s h

theorem length_le_flatMap {esc : Char → Text} (hesc : ∀ c, esc c ≠ []) (t : Text) :
    t.length ≤ (t.flatMap esc).length := by
  induction t with
  | nil => exact Nat.le_refl _
  | cons c t ih =>
    have hpos : 0 < (esc c).length := List.length_pos_of_ne_nil (hesc c)
    rw [List.flatMap_cons, List.length_append, List.length_cons]
    omega

theorem escapeRaw_ne_nil (c : Char) : escapeRaw c ≠ [] := by
  rcases escapeRaw_cases c with ⟨e, -, hc⟩ | ⟨-, hc⟩ | ⟨-, -, -, hc⟩
  all_goals
    rw [hc]
    exact List.cons_ne_nil _ _

theorem length_quoteRaw (t : Text) : t.length + 2 ≤ (quoteRaw t).length := by
  have := length_le_flatMap escapeRaw_ne_nil t
  rw [quoteRaw, List.length_cons, List.length_append, List.length_singleton]
  omega

theorem takeWhile_numeric (number : Number) {s : Text} (hs : EndsNumber s) :
    (number.repr ++ s).takeWhile isNumeric = number.repr ∧
      (number.repr ++ s).dropWhile isNumeric = s := by
  rw [List.takeWhile_append_of_pos number.numeric, List.dropWhile_append_of_pos number.numeric]
  cases s with
  | nil => simp
  | cons c s =>
    have hc : ¬ isNumeric c = true := by
      rw [startsIn_cons.1 hs]
      decide
    rw [List.takeWhile_cons_of_neg hc, List.dropWhile_cons_of_neg hc, List.append_nil]
    exact ⟨rfl, rfl⟩

theorem readNumber_repr {number : Number} (h : isNumberText number.repr = true) {s : Text}
    (hs : EndsNumber s) : readNumber (number.repr ++ s) = some (.number number, s) := by
  obtain ⟨htake, hdrop⟩ := takeWhile_numeric number hs
  unfold readNumber
  rw [dif_pos (by rw [htake]; exact ⟨number.ne_nil, h⟩)]
  simp only [htake, hdrop]

/-- At most the sign of a word for a float can be of a number. -/
theorem takeWhile_nonFinite (x : NonFinite) (s : Text) :
    (x.repr ++ s).takeWhile isNumeric = [] ∨ (x.repr ++ s).takeWhile isNumeric = ['-'] := by
  have hword : ∀ {c : Char} {l : Text}, isNumeric c = false →
      (c :: l).takeWhile isNumeric = [] := fun hc =>
    List.takeWhile_cons_of_neg (by simp [hc])
  cases x with
  | nan => exact .inl (hword rfl)
  | infinity => exact .inl (hword rfl)
  | negInfinity =>
    refine .inr ?_
    rw [NonFinite.repr_negInfinity, NonFinite.repr_infinity, List.cons_append,
      List.takeWhile_cons_of_pos rfl, List.cons_append, hword rfl]

theorem isLiteral_nonFinite (x : NonFinite) (s : Text) :
    isLiteral ((x.repr ++ s).takeWhile isNumeric) = false := by
  rcases takeWhile_nonFinite x s with h | h <;> rw [h] <;> decide

theorem readNonFinite_repr (x : NonFinite) (s : Text) :
    readNonFinite (x.repr ++ s) = some (.nonFinite x, s) := by
  cases x <;> simp [readNonFinite]

theorem readNumber_nonFinite (x : NonFinite) (s : Text) :
    readNumber (x.repr ++ s) = some (.nonFinite x, s) := by
  have hliteral := isLiteral_nonFinite x s
  rw [readNumber, dif_neg, if_neg (by simp [hliteral]), readNonFinite_repr]
  rintro ⟨-, hnumber⟩
  simp [isNumberText, hliteral] at hnumber

/-- A character that a number or a word for a float starts with. -/
def StartsNumber (c : Char) : Prop := isNumeric c = true ∨ c = 'N' ∨ c = 'I'

theorem startsNumber_of_readNumber {c : Char} {s : Text} {r : Scalar × Text}
    (h : readNumber (c :: s) = some r) : StartsNumber c := by
  by_contra hnot
  obtain ⟨hc, hN, hI⟩ : ¬ isNumeric c = true ∧ c ≠ 'N' ∧ c ≠ 'I' := by
    simpa [StartsNumber, not_or] using hnot
  have htake : (c :: s).takeWhile isNumeric = [] := List.takeWhile_cons_of_neg hc
  have hsign : c ≠ '-' := by
    rintro rfl
    exact hc rfl
  have hliteral : ¬ isLiteral ((c :: s).takeWhile isNumeric) = true := by
    rw [htake]
    decide
  rw [readNumber, dif_neg fun hnumber => hnumber.1 htake, if_neg hliteral] at h
  simp [readNonFinite, hN.symm, hI.symm, hsign.symm] at h

theorem readValue_number {n : ℕ} {c : Char} (hc : StartsNumber c) (s : Text) :
    readValue (n + 1) (c :: s) = (readNumber (c :: s)).map fun (v, s) => (.scalar v, s) := by
  have hne : ∀ d : Char, isNumeric d = false → d ≠ 'N' → d ≠ 'I' → c ≠ d := by
    rintro d hd hN hI rfl
    rcases hc with hc | hc | hc
    · rw [hc] at hd
      cases hd
    · exact hN hc
    · exact hI hc
  rw [readValue]
  -- none of the other forms starts with such a character
  all_goals
    intro s' h
    exact hne _ rfl (by decide) (by decide) (List.cons.inj h).1

/-! ## Dicts -/

theorem setItem_of_notMem {α : Type} {key : Text} {value : α} {items : List (Text × α)}
    (h : key ∉ items.map Prod.fst) : setItem key value items = items ++ [(key, value)] := by
  induction items with
  | nil => rfl
  | cons item items ih =>
    rw [List.map_cons, List.mem_cons, not_or] at h
    rw [setItem, if_neg fun heq => h.1 heq.symm, ih h.2, List.cons_append]

theorem dictOf_eq {α : Type} {items : List (Text × α)} (h : (items.map Prod.fst).Nodup) :
    dictOf items = items := by
  have hfrom : ∀ (rest front : List (Text × α)), ((front ++ rest).map Prod.fst).Nodup →
      rest.foldl (fun items pair => setItem pair.1 pair.2 items) front = front ++ rest := by
    intro rest
    induction rest with
    | nil => exact fun front _ => (List.append_nil front).symm
    | cons pair rest ih =>
      intro front hnodup
      have hnew : pair.1 ∉ front.map Prod.fst := by
        rw [List.map_append, List.map_cons] at hnodup
        exact fun hmem => (List.nodup_append.1 hnodup).2.2 _ hmem _ List.mem_cons_self rfl
      rw [List.foldl_cons, setItem_of_notMem hnew, ih _ (by simpa using hnodup)]
      simp
  exact hfrom items [] h

/-! ## The round trip -/

section

variable (lay : Layout)

theorem quoteRaw_append (key : Text) (s : Text) :
    quoteRaw key ++ s = '"' :: (key.flatMap escapeRaw ++ '"' :: s) := by
  simp [quoteRaw]

/-- A field is read where its value is. -/
theorem readField_write {read : Text → Option (Json × Text)} {m n : ℕ} {key : Text} {v : Json}
    {s : Text} (hkey : key.length < m)
    (hread : read (v.write lay n ++ s) = some (v, s)) :
    readField read m (quoteRaw key ++ ':' :: ' ' :: (v.write lay n ++ s)) =
      some ((key, v), s) := by
  have hspace : skipSpace (' ' :: (v.write lay n ++ s)) = v.write lay n ++ s := by
    rw [← List.singleton_append, skipSpace_append (by simp [isJsonSpace]), v.skipSpace_write lay]
  rw [quoteRaw_append, readField, readString_quoted _ _ hkey]
  simp only [Option.bind_eq_bind, Option.bind_some]
  rw [skipSpace_cons rfl]
  simp only [hspace, hread, Option.bind_some]

mutual

theorem readValue_write {n m : ℕ} {s : Text} : ∀ {v : Json}, v.Valid → (v.write lay n).length ≤ m →
    EndsNumber s → readValue m (v.write lay n ++ s) = some (v, s)
  | .scalar v, hvalid, hlength, hs => by
    obtain ⟨m, rfl⟩ := Nat.exists_eq_succ_of_ne_zero (Nat.ne_of_gt (Nat.lt_of_lt_of_le
      (Json.length_write_pos lay n (.scalar v)) hlength))
    rcases v with _ | (_ | _) | number | x | t
    · rfl
    · rfl
    · rfl
    · obtain ⟨c, l, hrepr⟩ := List.exists_cons_of_ne_nil number.ne_nil
      have hc : isNumeric c = true := number.numeric c (by rw [hrepr]; exact List.mem_cons_self)
      have hwrite : Json.write lay n (.scalar (.number number)) = number.repr := rfl
      have hread := readNumber_repr (by simpa [Json.Valid] using hvalid) hs
      rw [hrepr, List.cons_append] at hread
      rw [hwrite, hrepr, List.cons_append, readValue_number (.inl hc), hread]
      rfl
    · have hread := readNumber_nonFinite x s
      have hwrite : Json.write lay n (.scalar (.nonFinite x)) = x.repr := rfl
      obtain ⟨c, l, hrepr, -⟩ := (Scalar.nonFinite x).dumps_eq_cons
      have hx : x.repr = c :: l := hrepr
      rw [hx, List.cons_append] at hread
      rw [hwrite, hx, List.cons_append, readValue_number (startsNumber_of_readNumber hread), hread]
      rfl
    · have hwrite : Json.write lay n (.scalar (.string t)) = quoteRaw t := rfl
      have := length_quoteRaw t
      rw [hwrite] at hlength
      rw [hwrite, quoteRaw_append, readValue, readString_quoted _ _ (by omega)]
      rfl
  | .array [], _, hlength, _ => by
    obtain ⟨m, rfl⟩ := Nat.exists_eq_succ_of_ne_zero (Nat.ne_of_gt (Nat.lt_of_lt_of_le
      (Json.length_write_pos lay n (.array [])) hlength))
    rfl
  | .array (v :: l), hvalid, hlength, _ => by
    obtain ⟨m, rfl⟩ := Nat.exists_eq_succ_of_ne_zero (Nat.ne_of_gt (Nat.lt_of_lt_of_le
      (Json.length_write_pos lay n (.array (v :: l))) hlength))
    have hitems : Json.ValidItems (v :: l) := by simpa [Json.Valid] using hvalid
    rw [Json.ValidItems] at hitems
    rw [Json.write, List.length_cons, List.length_append, List.length_append] at hlength
    have hv := readValue_write (n := n + 1) (m := m) (s := Json.writeItems lay n l ++ s) hitems.1
      (by omega) (endsNumber_items lay n l s)
    have hl := readRest_items (n := n) (m := m) (k := m) (s := s) hitems.2 (by omega) (by omega)
    obtain ⟨c, rest, hhead, hspace, hne, -⟩ := v.write_eq_cons lay (n + 1)
    rw [Json.write, List.cons_append, readValue, List.append_assoc, List.append_assoc, readAll,
      lay.skipSpace_first, v.skipSpace_write lay]
    rw [hhead, List.cons_append] at hv ⊢
    simp only [hne, if_false, hv, hl, Option.bind_eq_bind, Option.bind_some, Option.map_some]
  | .object [], _, hlength, _ => by
    obtain ⟨m, rfl⟩ := Nat.exists_eq_succ_of_ne_zero (Nat.ne_of_gt (Nat.lt_of_lt_of_le
      (Json.length_write_pos lay n (.object [])) hlength))
    rfl
  | .object ((key, v) :: items), hvalid, hlength, _ => by
    obtain ⟨m, rfl⟩ := Nat.exists_eq_succ_of_ne_zero (Nat.ne_of_gt (Nat.lt_of_lt_of_le
      (Json.length_write_pos lay n (.object ((key, v) :: items))) hlength))
    have hfields : (((key, v) :: items).map Prod.fst).Nodup ∧ Json.ValidFields ((key, v) :: items) := by
      simpa [Json.Valid] using hvalid
    obtain ⟨hnodup, hfields⟩ := hfields
    rw [Json.ValidFields] at hfields
    simp only [Json.write, List.length_cons, List.length_append] at hlength
    have hquote := length_quoteRaw key
    have hv := readValue_write (n := n + 1) (m := m) (s := Json.writeFields lay n items ++ s)
      hfields.1 (by omega) (endsNumber_fields lay n items s)
    have hkey : key.length < m := by omega
    have hfield := readField_write lay hkey hv
    have hrest := readRest_fields (n := n) (m := m) (k := m) (s := s) hfields.2 (by omega)
      (by omega)
    rw [Json.write, List.cons_append, readValue]
    simp only [List.append_assoc, List.cons_append]
    rw [readAll, lay.skipSpace_first, quoteRaw_append, skipSpace_cons rfl]
    rw [quoteRaw_append] at hfield
    simp only [show ('"' : Char) ≠ '}' by decide, if_false, hfield, hrest, Option.bind_eq_bind,
      Option.bind_some, Option.map_some, dictOf_eq hnodup]

theorem readRest_items {n m k : ℕ} {s : Text} : ∀ {l : List Json}, Json.ValidItems l →
    (Json.writeItems lay n l).length ≤ m → (Json.writeItems lay n l).length ≤ k →
    readRest ']' (readValue m) k (Json.writeItems lay n l ++ s) = some (l, s)
  | [], _, _, hlength => by
    rw [Json.writeItems, List.length_append, List.length_singleton] at hlength
    obtain ⟨k, rfl⟩ := Nat.exists_eq_add_of_le' (show 1 ≤ k by omega)
    rw [Json.writeItems, List.append_assoc, readRest, lay.skipSpace_last]
    rfl
  | v :: l, hvalid, hlengthm, hlength => by
    rw [Json.ValidItems] at hvalid
    simp only [Json.writeItems, List.length_cons, List.length_append] at hlength hlengthm
    obtain ⟨k, rfl⟩ := Nat.exists_eq_add_of_le' (show 1 ≤ k by omega)
    have hv := readValue_write (n := n + 1) (m := m) (s := Json.writeItems lay n l ++ s) hvalid.1
      (by omega) (endsNumber_items lay n l s)
    have hl := readRest_items (n := n) (m := m) (k := k) (s := s) hvalid.2 (by omega) (by omega)
    rw [Json.writeItems, List.cons_append, readRest, skipSpace_cons rfl]
    simp only [if_true, List.append_assoc, lay.skipSpace_next, v.skipSpace_write lay, hv, hl,
      Option.bind_eq_bind, Option.bind_some]

theorem readRest_fields {n m k : ℕ} {s : Text} : ∀ {items : List (Text × Json)},
    Json.ValidFields items → (Json.writeFields lay n items).length ≤ m →
    (Json.writeFields lay n items).length ≤ k →
    readRest '}' (readField (readValue m) m) k (Json.writeFields lay n items ++ s) =
      some (items, s)
  | [], _, _, hlength => by
    rw [Json.writeFields, List.length_append, List.length_singleton] at hlength
    obtain ⟨k, rfl⟩ := Nat.exists_eq_add_of_le' (show 1 ≤ k by omega)
    rw [Json.writeFields, List.append_assoc, readRest, lay.skipSpace_last]
    rfl
  | (key, v) :: items, hvalid, hlengthm, hlength => by
    rw [Json.ValidFields] at hvalid
    simp only [Json.writeFields, List.length_cons, List.length_append] at hlength hlengthm
    obtain ⟨k, rfl⟩ := Nat.exists_eq_add_of_le' (show 1 ≤ k by omega)
    have hquote := length_quoteRaw key
    have hv := readValue_write (n := n + 1) (m := m) (s := Json.writeFields lay n items ++ s)
      hvalid.1 (by omega) (endsNumber_fields lay n items s)
    have hkey : key.length < m := by omega
    have hfield := readField_write lay hkey hv
    have hrest := readRest_fields (n := n) (m := m) (k := k) (s := s) hvalid.2 (by omega)
      (by omega)
    rw [Json.writeFields, List.cons_append, readRest, skipSpace_cons rfl]
    simp only [List.append_assoc, List.cons_append, lay.skipSpace_next]
    rw [quoteRaw_append, skipSpace_cons rfl, ← quoteRaw_append]
    simp only [if_true, hfield, hrest, Option.bind_eq_bind, Option.bind_some]

end

/-- **What is written is read back.** -/
theorem loads_write {v : Json} (hvalid : v.Valid) : loads (v.write lay 0) = some v := by
  have hread := readValue_write lay (n := 0) (s := []) hvalid (Nat.le_succ _) startsIn_nil
  have hspace := v.skipSpace_write lay 0 []
  rw [List.append_nil] at hread hspace
  rw [loads, hspace, hread]
  rfl

end

/-! ## Texts that go on -/

/-- What is read of a text is read of every longer one, if something is left of it. -/
def Extends {α : Type u} (read read' : Text → Option (α × Text)) : Prop :=
  ∀ s a rest t, rest ≠ [] → read s = some (a, rest) → read' (s ++ t) = some (a, rest ++ t)

/-- What is read of a text is read of every longer one. -/
def Closed {α : Type u} (read read' : Text → Option (α × Text)) : Prop :=
  ∀ s a rest t, read s = some (a, rest) → read' (s ++ t) = some (a, rest ++ t)

theorem Closed.extends {α : Type u} {read read' : Text → Option (α × Text)}
    (h : Closed read read') : Extends read read' := fun s a rest t _ => h s a rest t

theorem skipSpace_append_of_ne_nil {s : Text} (h : skipSpace s ≠ []) (t : Text) :
    skipSpace (s ++ t) = skipSpace s ++ t := by
  induction s with
  | nil => exact absurd rfl h
  | cons c s ih =>
    cases hc : isJsonSpace c with
    | true =>
      have hskip : ∀ u : Text, skipSpace (c :: u) = skipSpace u :=
        fun u => List.dropWhile_cons_of_pos hc
      rw [hskip] at h
      rw [List.cons_append, hskip, hskip, ih h]
    | false => rw [List.cons_append, skipSpace_cons hc, skipSpace_cons hc, List.cons_append]

theorem closed_readUnit : Closed readUnit readUnit := by
  intro s a rest t h
  match s, h with
  | x :: y :: z :: w :: s, h =>
    simp only [readUnit, Option.bind_eq_bind, Option.bind_eq_some_iff, Option.some.injEq,
      Prod.mk.injEq] at h
    obtain ⟨a, ha, b, hb, c, hc, d, hd, rfl, rfl⟩ := h
    simp only [List.cons_append, readUnit, ha, hb, hc, hd, Option.bind_eq_bind, Option.bind_some]

theorem closed_readEscape : Closed readEscape readEscape := by
  intro s a rest t h
  match s, h with
  | c :: s, h =>
    by_cases hc : c = 'u'
    · subst hc
      simp only [readEscape, Option.bind_eq_bind, Option.bind_eq_some_iff] at h
      obtain ⟨⟨n, s'⟩, hunit, h⟩ := h
      simp only [List.cons_append, readEscape, closed_readUnit s n s' t hunit, Option.bind_eq_bind,
        Option.bind_some]
      simp only at h
      split at h
      · next hhigh =>
        split at h
        · next s'' =>
          obtain ⟨⟨m, s₂⟩, hunit', h⟩ := Option.bind_eq_some_iff.1 h
          rw [if_pos hhigh]
          simp only [List.cons_append, closed_readUnit _ m s₂ t hunit', Option.bind_some]
          simp only at h
          split at h
          · next hlow =>
            simp only [Option.some.injEq, Prod.mk.injEq] at h
            obtain ⟨rfl, rfl⟩ := h
            rw [if_pos hlow]
          · cases h
        · cases h
      · next hhigh =>
        split at h
        · cases h
        · next hlow =>
          simp only [Option.some.injEq, Prod.mk.injEq] at h
          obtain ⟨rfl, rfl⟩ := h
          rw [if_neg hhigh, if_neg hlow]
    · have hread : ∀ u : Text, readEscape (c :: u) = (shortEscape c).map (·, u) := by
        intro u
        rw [readEscape]
        exact hc
      rw [hread] at h
      rw [List.cons_append, hread]
      obtain ⟨d, hd, hpair⟩ := Option.map_eq_some_iff.1 h
      rw [Prod.mk.injEq] at hpair
      obtain ⟨rfl, rfl⟩ := hpair
      rw [hd, Option.map_some]

theorem closed_readString {n m : ℕ} (hnm : n ≤ m) : Closed (readString n) (readString m) := by
  induction n generalizing m with
  | zero => exact fun s a rest t h => by cases h
  | succ n ih =>
    obtain ⟨m, rfl⟩ := Nat.exists_eq_add_of_le' (Nat.le_trans (Nat.succ_pos n) hnm)
    have ih := ih (Nat.le_of_succ_le_succ hnm)
    intro s a rest t h
    match s, h with
    | c :: s, h =>
      rw [readString] at h
      rw [List.cons_append, readString]
      split at h
      · next hquote =>
        simp only [Option.some.injEq, Prod.mk.injEq] at h
        obtain ⟨rfl, rfl⟩ := h
        rw [if_pos hquote]
      · next hquote =>
        rw [if_neg hquote]
        split at h
        · next hback =>
          simp only [Option.bind_eq_bind, Option.bind_eq_some_iff, Option.some.injEq] at h
          obtain ⟨⟨d, s'⟩, hescape, ⟨u, s₂⟩, hstring, heq⟩ := h
          simp only [Prod.mk.injEq] at heq
          obtain ⟨rfl, rfl⟩ := heq
          simp only [if_pos hback, closed_readEscape _ d s' t hescape, ih _ u s₂ t hstring,
            Option.bind_eq_bind, Option.bind_some]
        · next hback =>
          rw [if_neg hback]
          split at h
          · cases h
          · next hlow =>
            obtain ⟨⟨u, s'⟩, hstring, heq⟩ := Option.map_eq_some_iff.1 h
            simp only [Prod.mk.injEq] at heq
            obtain ⟨rfl, rfl⟩ := heq
            rw [if_neg hlow, ih _ u s' t hstring, Option.map_some]

theorem eq_repr_of_readNonFinite {s rest : Text} {v : Scalar}
    (h : readNonFinite s = some (v, rest)) : ∃ x, v = .nonFinite x ∧ s = NonFinite.repr x ++ rest := by
  obtain ⟨x, -, hx⟩ := List.exists_of_findSome?_eq_some h
  obtain ⟨hstarts, heq⟩ := Option.ite_none_right_eq_some.1 hx
  obtain ⟨rfl, rfl⟩ := Prod.mk.inj (Option.some.inj heq)
  exact ⟨x, rfl, (List.prefix_iff_eq_append.1 (List.isPrefixOf_iff_prefix.1 hstarts)).symm⟩

theorem extends_readNumber : Extends readNumber readNumber := by
  intro s v rest t hrest h
  -- a number that ends within the text ends there in the longer one
  have hends : rest = s.dropWhile isNumeric →
      (s ++ t).takeWhile isNumeric = s.takeWhile isNumeric ∧
        (s ++ t).dropWhile isNumeric = rest ++ t := by
    rintro rfl
    have hsplit : s.takeWhile isNumeric ++ s.dropWhile isNumeric = s :=
      List.takeWhile_append_dropWhile
    have hall : ∀ c ∈ s.takeWhile isNumeric, isNumeric c = true :=
      fun _ => List.mem_takeWhile_imp
    obtain ⟨c, l, hl⟩ := List.exists_cons_of_ne_nil hrest
    have hc : ¬ isNumeric c = true := by
      have hhead := List.head_dropWhile_not isNumeric hrest
      simpa [hl] using hhead
    rw [hl] at hsplit ⊢
    constructor
    · nth_rewrite 1 [← hsplit]
      rw [List.append_assoc, List.takeWhile_append_of_pos hall, List.cons_append,
        List.takeWhile_cons_of_neg hc, List.append_nil]
    · nth_rewrite 1 [← hsplit]
      rw [List.append_assoc, List.dropWhile_append_of_pos hall, List.cons_append,
        List.dropWhile_cons_of_neg hc]
  unfold readNumber at h
  split at h
  case isTrue hnumber =>
    obtain ⟨rfl, rfl⟩ := Prod.mk.inj (Option.some.inj h)
    obtain ⟨htake, hdrop⟩ := hends rfl
    unfold readNumber
    rw [dif_pos (by rwa [htake])]
    simp only [htake, hdrop]
  case isFalse hnumber =>
    split at h
    case isTrue hliteral =>
      obtain ⟨rfl, rfl⟩ := Prod.mk.inj (Option.some.inj h)
      obtain ⟨htake, hdrop⟩ := hends rfl
      have hhead : (s ++ t).head? = s.head? := by
        refine List.head?_append_of_ne_nil _ ?_
        rintro rfl
        exact hrest rfl
      unfold readNumber
      rw [dif_neg (by rwa [htake]), if_pos (by rwa [htake]), hdrop, hhead]
    case isFalse =>
      obtain ⟨x, rfl, rfl⟩ := eq_repr_of_readNonFinite h
      rw [List.append_assoc]
      exact readNumber_nonFinite x (rest ++ t)

section

variable {α : Type} {close : Char} {read read' : Text → Option (α × Text)}

theorem closed_readRest (hread : Extends read read') (hnil : read [] = none) {n m : ℕ} (hnm : n ≤ m) :
    Closed (readRest close read n) (readRest close read' m) := by
  induction n generalizing m with
  | zero => exact fun s a rest t h => by cases h
  | succ n ih =>
    obtain ⟨m, rfl⟩ := Nat.exists_eq_add_of_le' (Nat.le_trans (Nat.succ_pos n) hnm)
    have ih := ih (Nat.le_of_succ_le_succ hnm)
    intro s l rest t h
    rw [readRest] at h
    rw [readRest]
    cases hskip : skipSpace s with
    | nil =>
      rw [hskip] at h
      cases h
    | cons c s' =>
      rw [skipSpace_append_of_ne_nil (by rw [hskip]; exact List.cons_ne_nil _ _), hskip]
      rw [hskip] at h
      simp only [List.cons_append] at h ⊢
      split at h
      · next hcomma =>
        simp only [Option.bind_eq_bind, Option.bind_eq_some_iff, Option.some.injEq] at h
        obtain ⟨⟨a, s₂⟩, hitem, ⟨l', s₃⟩, hrest, heq⟩ := h
        simp only [Prod.mk.injEq] at heq
        obtain ⟨rfl, rfl⟩ := heq
        have hne : s₂ ≠ [] := by
          rintro rfl
          cases n <;> cases hrest
        have hskip' : skipSpace s' ≠ [] := by
          intro hempty
          rw [hempty, hnil] at hitem
          cases hitem
        rw [if_pos hcomma, skipSpace_append_of_ne_nil hskip']
        simp only [hread _ a s₂ t hne hitem, ih _ l' s₃ t hrest, Option.bind_eq_bind,
          Option.bind_some]
      · next hcomma =>
        rw [if_neg hcomma]
        split at h
        · next hclose =>
          simp only [Option.some.injEq, Prod.mk.injEq] at h
          obtain ⟨rfl, rfl⟩ := h
          rw [if_pos hclose]
        · cases h

theorem closed_readAll (hread : Extends read read') (hnil : read [] = none) {n m : ℕ}
    (hnm : n ≤ m) : Closed (readAll close read n) (readAll close read' m) := by
  intro s l rest t h
  unfold readAll at h ⊢
  cases hskip : skipSpace s with
  | nil =>
    rw [hskip] at h
    cases h
  | cons c s' =>
    rw [skipSpace_append_of_ne_nil (by rw [hskip]; exact List.cons_ne_nil _ _), hskip]
    rw [hskip] at h
    simp only [List.cons_append] at h ⊢
    split at h
    · next hclose =>
      simp only [Option.some.injEq, Prod.mk.injEq] at h
      obtain ⟨rfl, rfl⟩ := h
      rw [if_pos hclose]
    · next hclose =>
      simp only [Option.bind_eq_bind, Option.bind_eq_some_iff, Option.some.injEq] at h
      obtain ⟨⟨a, s₂⟩, hitem, ⟨l', s₃⟩, hrest, heq⟩ := h
      simp only [Prod.mk.injEq] at heq
      obtain ⟨rfl, rfl⟩ := heq
      have hne : s₂ ≠ [] := by
        rintro rfl
        cases n <;> cases hrest
      have hitem' := hread _ a s₂ t hne hitem
      rw [List.cons_append] at hitem'
      rw [if_neg hclose]
      simp only [hitem', closed_readRest hread hnil hnm _ l' s₃ t hrest, Option.bind_eq_bind,
        Option.bind_some]

theorem extends_readField (hread : Extends read read') (hnil : read [] = none) {n m : ℕ}
    (hnm : n ≤ m) : Extends (readField read n) (readField read' m) := by
  intro s a rest t hrest h
  match s, h with
  | c :: s, h =>
    rw [readField.eq_def] at h
    split at h
    · next s₀ heq =>
      obtain ⟨rfl, rfl⟩ := List.cons.inj heq
      obtain ⟨⟨key, s₁⟩, hkey, h⟩ := Option.bind_eq_some_iff.1 h
      rw [List.cons_append, readField]
      simp only [closed_readString hnm _ key s₁ t hkey, Option.bind_eq_bind, Option.bind_some]
      simp only at h
      split at h
      · next s₂ hcolon =>
        rw [skipSpace_append_of_ne_nil (by rw [hcolon]; exact List.cons_ne_nil _ _), hcolon]
        simp only [Option.bind_eq_bind, Option.bind_eq_some_iff, Option.some.injEq] at h
        obtain ⟨⟨v, s₃⟩, hv, hpair⟩ := h
        simp only [Prod.mk.injEq] at hpair
        obtain ⟨rfl, rfl⟩ := hpair
        have hskip : skipSpace s₂ ≠ [] := by
          intro hempty
          rw [hempty, hnil] at hv
          cases hv
        simp only [List.cons_append, skipSpace_append_of_ne_nil hskip, hread _ v s₃ t hrest hv,
          Option.bind_some]
      · cases h
    · cases h

end

theorem readValue_nil (n : ℕ) : readValue n [] = none := by
  cases n <;> rfl

/-- A string, an array or an object starts with this character. -/
def Encloses (c : Char) : Prop := c = '"' ∨ c = '[' ∨ c = '{'

/-- **What is read of a text is read of every longer one**, unless a number may go on. -/
theorem readValue_append {n m : ℕ} (hnm : n ≤ m) {c : Char} {s rest : Text} {v : Json} (t : Text)
    (h : readValue n (c :: s) = some (v, rest)) (hrest : rest ≠ [] ∨ Encloses c) :
    readValue m (c :: s ++ t) = some (v, rest ++ t) := by
  induction n generalizing m c s rest v t with
  | zero => cases h
  | succ n ih =>
    obtain ⟨m, rfl⟩ := Nat.exists_eq_add_of_le' (Nat.le_trans (Nat.succ_pos n) hnm)
    have hnm' := Nat.le_of_succ_le_succ hnm
    have hread : Extends (readValue n) (readValue m) := by
      intro s v rest t hrest h
      match s, h with
      | [], h =>
        rw [readValue_nil] at h
        cases h
      | c :: s, h => exact ih hnm' t h (.inl hrest)
    have hnil := readValue_nil n
    have hfield : readField (readValue n) n [] = none := rfl
    rw [readValue.eq_def] at h
    simp only at h
    split at h
    · next s₀ heq =>
      obtain ⟨rfl, rfl⟩ := List.cons.inj heq
      obtain ⟨⟨u, s₁⟩, hstring, hpair⟩ := Option.map_eq_some_iff.1 h
      simp only [Prod.mk.injEq] at hpair
      obtain ⟨rfl, rfl⟩ := hpair
      rw [List.cons_append, readValue, closed_readString hnm' _ u s₁ t hstring]
      rfl
    · next s₀ heq =>
      obtain ⟨rfl, rfl⟩ := List.cons.inj heq
      obtain ⟨⟨l, s₁⟩, hall, hpair⟩ := Option.map_eq_some_iff.1 h
      simp only [Prod.mk.injEq] at hpair
      obtain ⟨rfl, rfl⟩ := hpair
      rw [List.cons_append, readValue, closed_readAll hread hnil hnm' _ l s₁ t hall]
      rfl
    · next s₀ heq =>
      obtain ⟨rfl, rfl⟩ := List.cons.inj heq
      obtain ⟨⟨l, s₁⟩, hall, hpair⟩ := Option.map_eq_some_iff.1 h
      simp only [Prod.mk.injEq] at hpair
      obtain ⟨rfl, rfl⟩ := hpair
      have hfields := extends_readField hread hnil hnm'
      rw [List.cons_append, readValue, closed_readAll hfields hfield hnm' _ l s₁ t hall]
      rfl
    · next s₀ heq =>
      simp only [Option.some.injEq, Prod.mk.injEq] at h
      obtain ⟨rfl, rfl⟩ := h
      rw [heq]
      rfl
    · next s₀ heq =>
      simp only [Option.some.injEq, Prod.mk.injEq] at h
      obtain ⟨rfl, rfl⟩ := h
      rw [heq]
      rfl
    · next s₀ heq =>
      simp only [Option.some.injEq, Prod.mk.injEq] at h
      obtain ⟨rfl, rfl⟩ := h
      rw [heq]
      rfl
    · next s₀ hstring harray hobject _ _ _ =>
      obtain ⟨⟨number, s₁⟩, hnumber, hpair⟩ := Option.map_eq_some_iff.1 h
      simp only [Prod.mk.injEq] at hpair
      obtain ⟨rfl, rfl⟩ := hpair
      have hne : s₁ ≠ [] := by
        refine hrest.resolve_right ?_
        rintro (rfl | rfl | rfl)
        · exact hstring s rfl
        · exact harray s rfl
        · exact hobject s rfl
      have hc := startsNumber_of_readNumber hnumber
      have hmore := extends_readNumber _ number s₁ t hne hnumber
      rw [List.cons_append] at hmore
      rw [List.cons_append, readValue_number hc, hmore]
      rfl

/-- **A text that is cut before the end of a string, an array or an object is not read.** -/
theorem loads_eq_none_of_cut {lay : Layout} {v : Json} (hvalid : v.Valid) {s t : Text}
    (hwrite : v.write lay 0 = s ++ t) (ht : t ≠ [])
    (hencloses : ∀ c ∈ s.head?, Encloses c) : loads s = none := by
  have hwhole := readValue_write lay (n := 0) (s := []) (m := s.length + t.length + 1) hvalid
    (by rw [hwrite, List.length_append]; omega) startsIn_nil
  rw [List.append_nil] at hwhole
  cases s with
  | nil => rfl
  | cons c s =>
    obtain ⟨c', l, hhead, hspace, -⟩ := v.write_eq_cons lay 0
    rw [hwrite, List.cons_append] at hhead
    obtain rfl := (List.cons.inj hhead).1
    unfold loads
    rw [skipSpace_cons hspace]
    cases hread : readValue ((c :: s).length + 1) (c :: s) with
    | none => rfl
    | some found =>
      obtain ⟨w, rest⟩ := found
      have hlonger := readValue_append (m := (c :: s).length + t.length + 1) (by omega) t hread
        (.inr (hencloses c rfl))
      rw [← hwrite, hwhole] at hlonger
      simp only [Option.some.injEq, Prod.mk.injEq] at hlonger
      exact absurd (List.append_eq_nil_iff.1 hlonger.2.symm).2 ht

/-! ## The characters of a text -/

theorem hexDigit_plain : ∀ n < 16, 32 ≤ (hexDigit n).toNat ∧ (hexDigit n).toNat < 127 := by decide

/-- What a character is written as: itself, or printable ASCII. -/
theorem mem_escapeRaw {c d : Char} (h : d ∈ escapeRaw c) :
    d = c ∧ 32 ≤ c.toNat ∨ 32 ≤ d.toNat ∧ d.toNat < 127 := by
  rcases escapeRaw_cases c with ⟨e, he, hc⟩ | ⟨hlow, hc⟩ | ⟨-, -, hplain, hc⟩
  · have hletter : ∀ p ∈ shortEscapes, 32 ≤ p.2.toNat ∧ p.2.toNat < 127 := by decide
    rw [hc, List.mem_cons, List.mem_singleton] at h
    rcases h with rfl | rfl
    · exact .inr (by decide)
    · exact .inr (hletter _ he)
  · rw [hc] at h
    simp only [hexEscape, List.mem_cons, List.not_mem_nil, or_false] at h
    rcases h with rfl | rfl | rfl | rfl | rfl | rfl
    · exact .inr (by decide)
    · exact .inr (by decide)
    all_goals exact .inr (hexDigit_plain _ (by omega))
  · rw [hc] at h
    exact .inl ⟨List.mem_singleton.1 h, hplain⟩

theorem mem_escapeRaw_self {c : Char} (h : 127 ≤ c.toNat) : c ∈ escapeRaw c := by
  rcases escapeRaw_cases c with ⟨e, he, -⟩ | ⟨hlow, -⟩ | ⟨-, -, -, hc⟩
  · have hshort : ∀ p ∈ shortEscapes, p.1.toNat < 127 := by decide
    exact absurd (hshort _ he) (Nat.not_lt.2 h)
  · omega
  · rw [hc]
    exact List.mem_singleton.2 rfl

/-- A character of what is quoted. -/
theorem mem_quoteRaw {t : Text} {c : Char} (h : c ∈ quoteRaw t) :
    32 ≤ c.toNat ∧ (127 ≤ c.toNat → c ∈ t) := by
  simp only [quoteRaw, List.mem_cons, List.mem_append, List.mem_flatMap, List.not_mem_nil,
    or_false] at h
  rcases h with rfl | ⟨d, hd, hc⟩ | rfl
  · exact ⟨by decide, fun h => absurd h (by decide)⟩
  · rcases mem_escapeRaw hc with ⟨rfl, hplain⟩ | ⟨hlow, hhigh⟩
    · exact ⟨hplain, fun _ => hd⟩
    · exact ⟨hlow, fun h => by omega⟩
  · exact ⟨by decide, fun h => absurd h (by decide)⟩

theorem mem_quoteRaw_of_mem {t : Text} {c : Char} (h : c ∈ t) (hc : 127 ≤ c.toNat) :
    c ∈ quoteRaw t := by
  simp only [quoteRaw, List.mem_cons, List.mem_append, List.mem_flatMap]
  exact .inr (.inl ⟨c, h, mem_escapeRaw_self hc⟩)

/-- A character that is written: a space of the layout, or no control character, and beyond ASCII
one of a string or a key. -/
def Shown (lay : Layout) (texts : List Text) (c : Char) : Prop :=
  (∃ n, c ∈ lay.first n ++ lay.next n ++ lay.last n) ∨
    32 ≤ c.toNat ∧ (127 ≤ c.toNat → ∃ t ∈ texts, c ∈ t)

section

variable {lay : Layout}

theorem Shown.mono {texts texts' : List Text} {c : Char} (h : Shown lay texts c)
    (hsub : texts ⊆ texts') : Shown lay texts' c := by
  rcases h with h | ⟨hplain, h⟩
  · exact .inl h
  · refine .inr ⟨hplain, fun hc => ?_⟩
    obtain ⟨t, ht, hct⟩ := h hc
    exact ⟨t, hsub ht, hct⟩

theorem shown_of_plain {texts : List Text} {c : Char} (h : 32 ≤ c.toNat ∧ c.toNat < 127) :
    Shown lay texts c := .inr ⟨h.1, fun hc => by omega⟩

theorem shown_of_mem_plain {texts : List Text} {l : Text} {c : Char}
    (hplain : l.all (fun c => 32 ≤ c.toNat && c.toNat < 127) = true) (h : c ∈ l) :
    Shown lay texts c :=
  shown_of_plain (by simpa using List.all_eq_true.1 hplain c h)

theorem shown_of_mem_quoteRaw {texts : List Text} {t : Text} {c : Char} (ht : t ∈ texts)
    (h : c ∈ quoteRaw t) : Shown lay texts c :=
  .inr ⟨(mem_quoteRaw h).1, fun hc => ⟨t, ht, (mem_quoteRaw h).2 hc⟩⟩

theorem shown_of_mem_scalar {v : Scalar} {c : Char} (h : c ∈ v.write) :
    Shown lay (Json.texts (.scalar v)) c := by
  rcases v with _ | (_ | _) | number | (_ | _ | _) | t
  case string => exact shown_of_mem_quoteRaw (List.mem_singleton.2 rfl) h
  case number => exact shown_of_plain (isNumeric_plain (number.numeric c h))
  all_goals exact shown_of_mem_plain (by decide) h

mutual

theorem shown_of_mem_write {n : ℕ} {c : Char} : ∀ {v : Json}, c ∈ v.write lay n →
    Shown lay v.texts c
  | .scalar v, h => shown_of_mem_scalar h
  | .array [], h => by
    rw [Json.write] at h
    exact shown_of_mem_plain (by decide) h
  | .array (v :: l), h => by
    simp only [Json.write, List.mem_cons, List.mem_append] at h
    rw [Json.texts, Json.textsOfItems]
    rcases h with rfl | (h | h) | h
    · exact shown_of_plain (by decide)
    · exact .inl ⟨n, by simp [h]⟩
    · exact (shown_of_mem_write h).mono (List.subset_append_left _ _)
    · exact (shown_of_mem_items h).mono (List.subset_append_right _ _)
  | .object [], h => by
    rw [Json.write] at h
    exact shown_of_mem_plain (by decide) h
  | .object ((key, v) :: items), h => by
    simp only [Json.write, List.mem_cons, List.mem_append] at h
    rw [Json.texts, Json.textsOfFields]
    rcases h with rfl | ((h | h) | rfl | rfl | h) | h
    · exact shown_of_plain (by decide)
    · exact .inl ⟨n, by simp [h]⟩
    · exact shown_of_mem_quoteRaw (by simp) h
    · exact shown_of_plain (by decide)
    · exact shown_of_plain (by decide)
    · exact (shown_of_mem_write h).mono fun t ht => by simp [ht]
    · exact (shown_of_mem_fields h).mono fun t ht => by simp [ht]

theorem shown_of_mem_items {n : ℕ} {c : Char} : ∀ {l : List Json}, c ∈ Json.writeItems lay n l →
    Shown lay (Json.textsOfItems l) c
  | [], h => by
    simp only [Json.writeItems, List.mem_append, List.mem_singleton] at h
    rcases h with h | rfl
    · exact .inl ⟨n, by simp [h]⟩
    · exact shown_of_plain (by decide)
  | v :: l, h => by
    simp only [Json.writeItems, List.mem_cons, List.mem_append] at h
    rw [Json.textsOfItems]
    rcases h with rfl | (h | h) | h
    · exact shown_of_plain (by decide)
    · exact .inl ⟨n, by simp [h]⟩
    · exact (shown_of_mem_write h).mono (List.subset_append_left _ _)
    · exact (shown_of_mem_items h).mono (List.subset_append_right _ _)

theorem shown_of_mem_fields {n : ℕ} {c : Char} : ∀ {items : List (Text × Json)},
    c ∈ Json.writeFields lay n items → Shown lay (Json.textsOfFields items) c
  | [], h => by
    simp only [Json.writeFields, List.mem_append, List.mem_singleton] at h
    rcases h with h | rfl
    · exact .inl ⟨n, by simp [h]⟩
    · exact shown_of_plain (by decide)
  | (key, v) :: items, h => by
    simp only [Json.writeFields, List.mem_cons, List.mem_append] at h
    rw [Json.textsOfFields]
    rcases h with rfl | ((h | h) | rfl | rfl | h) | h
    · exact shown_of_plain (by decide)
    · exact .inl ⟨n, by simp [h]⟩
    · exact shown_of_mem_quoteRaw (by simp) h
    · exact shown_of_plain (by decide)
    · exact shown_of_plain (by decide)
    · exact (shown_of_mem_write h).mono fun t ht => by simp [ht]
    · exact (shown_of_mem_fields h).mono fun t ht => by simp [ht]

end

/-- A value with a string or a key is a string, an array or an object. -/
theorem Json.write_head_of_mem_texts (lay : Layout) (n : ℕ) {v : Json} {t : Text}
    (h : t ∈ v.texts) : ∃ c l, v.write lay n = c :: l ∧ Encloses c := by
  rcases v with (_ | b | number | x | s) | (_ | ⟨v, l⟩) | (_ | ⟨⟨key, v⟩, items⟩)
  case scalar.string => exact ⟨_, _, rfl, .inl rfl⟩
  case array.cons => exact ⟨_, _, rfl, .inr (.inl rfl)⟩
  case object.cons => exact ⟨_, _, rfl, .inr (.inr rfl)⟩
  all_goals cases h

/-- A value does not start with white space. -/
theorem Json.isSpace_head (lay : Layout) (n : ℕ) {v : Json} {c : Char} {l : Text}
    (h : v.write lay n = c :: l) : Text.isSpace c = false := by
  rcases v with (_ | (_ | _) | number | (_ | _ | _) | s) | (_ | ⟨v, l'⟩) | (_ | ⟨⟨key, v⟩, items⟩)
  case scalar.number =>
    have hnumeric := number.numeric c (by
      have hrepr : number.repr = c :: l := h
      rw [hrepr]
      exact List.mem_cons_self)
    simp only [isNumeric, Bool.or_eq_true, decide_eq_true_eq] at hnumeric
    rcases hnumeric with ((((hdigit | rfl) | rfl) | rfl) | rfl) | rfl
    · have hplain := isNumeric_plain (c := c) (by simp [isNumeric, hdigit])
      rw [Bool.eq_false_iff]
      intro hspace
      have hne : c.toNat ≠ 32 := by
        intro heq
        have hc : c = ' ' := by rw [← Char.ofNat_toNat c, heq]
        rw [hc] at hdigit
        cases hdigit
      simp only [Text.isSpace, Bool.or_eq_true, Bool.and_eq_true, decide_eq_true_eq] at hspace
      omega
    all_goals rfl
  all_goals
    obtain rfl := (List.cons.inj h).1
    rfl

mutual

/-- A character beyond ASCII of a string or a key is written as it is. -/
theorem mem_write {n : ℕ} {c : Char} (hc : 127 ≤ c.toNat) {t : Text} (hct : c ∈ t) : ∀ {v : Json},
    t ∈ v.texts → c ∈ v.write lay n
  | .scalar (.string s), ht => by
    obtain rfl := List.mem_singleton.1 ht
    exact mem_quoteRaw_of_mem hct hc
  | .scalar .null, ht => by cases ht
  | .scalar (.bool b), ht => by cases ht
  | .scalar (.number number), ht => by cases ht
  | .scalar (.nonFinite x), ht => by cases ht
  | .array [], ht => by cases ht
  | .array (v :: l), ht => by
    rw [Json.texts, Json.textsOfItems, List.mem_append] at ht
    rw [Json.write]
    rcases ht with ht | ht
    · have hmem := mem_write (n := n + 1) hc hct ht
      simp [hmem]
    · have hmem := mem_writeItems (n := n) hc hct ht
      simp [hmem]
  | .object [], ht => by cases ht
  | .object ((key, v) :: items), ht => by
    simp only [Json.texts, Json.textsOfFields, List.cons_append, List.mem_cons, List.mem_append]
      at ht
    rw [Json.write]
    rcases ht with rfl | ht | ht
    · have hmem := mem_quoteRaw_of_mem hct hc
      simp [hmem]
    · have hmem := mem_write (n := n + 1) hc hct ht
      simp [hmem]
    · have hmem := mem_writeFields (n := n) hc hct ht
      simp [hmem]

theorem mem_writeItems {n : ℕ} {c : Char} (hc : 127 ≤ c.toNat) {t : Text} (hct : c ∈ t) :
    ∀ {l : List Json}, t ∈ Json.textsOfItems l → c ∈ Json.writeItems lay n l
  | [], ht => by cases ht
  | v :: l, ht => by
    rw [Json.textsOfItems, List.mem_append] at ht
    rw [Json.writeItems]
    rcases ht with ht | ht
    · have hmem := mem_write (n := n + 1) hc hct ht
      simp [hmem]
    · have hmem := mem_writeItems (n := n) hc hct ht
      simp [hmem]

theorem mem_writeFields {n : ℕ} {c : Char} (hc : 127 ≤ c.toNat) {t : Text} (hct : c ∈ t) :
    ∀ {items : List (Text × Json)}, t ∈ Json.textsOfFields items →
      c ∈ Json.writeFields lay n items
  | [], ht => by cases ht
  | (key, v) :: items, ht => by
    simp only [Json.textsOfFields, List.cons_append, List.mem_cons, List.mem_append] at ht
    rw [Json.writeFields]
    rcases ht with rfl | ht | ht
    · have hmem := mem_quoteRaw_of_mem hct hc
      simp [hmem]
    · have hmem := mem_write (n := n + 1) hc hct ht
      simp [hmem]
    · have hmem := mem_writeFields (n := n) hc hct ht
      simp [hmem]

end

end

end ResidentCrm
