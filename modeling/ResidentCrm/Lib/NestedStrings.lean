import ResidentCrm.Lib.JsonText

/-!
# Strings within strings

JSON as the value of a JSON string, as that of another one and so on: each time the quotes and the
backslashes are escaped, whatever else is. A quote then stands after a run of backslashes, and its
length says whether it delimits the string that is written there or stands within it
(`nested_eq_run`).
-/

namespace ResidentCrm

/-! ## Escapings -/

/-- A code of backslashes, letters and digits that begins with a backslash and ends with none. -/
structure IsCode (x : Text) : Prop where
  head : x.head? = some '\\'
  last : x.getLast? ≠ some '\\'
  chars : ∀ c ∈ x, c = '\\' ∨ c.isAlphanum = true

theorem IsCode.ne_nil {x : Text} (h : IsCode x) : x ≠ [] := by
  rintro rfl
  cases h.head

theorem IsCode.append {x y : Text} (hx : IsCode x) (hy : IsCode y) : IsCode (x ++ y) where
  head := by rw [List.head?_append, hx.head, Option.some_or]
  last := by
    rw [List.getLast?_append_of_ne_nil _ hy.ne_nil]
    exact hy.last
  chars c hc := (List.mem_append.1 hc).elim (hx.chars c) (hy.chars c)

theorem IsCode.quote_notMem {x : Text} (h : IsCode x) : '"' ∉ x := by
  intro hmem
  rcases h.chars _ hmem with heq | halnum
  · exact absurd heq (by decide)
  · cases halnum

theorem toNat_of_isAlphanum {c : Char} (h : c.isAlphanum = true) :
    48 ≤ c.toNat ∧ c.toNat ≤ 122 := by
  change ((decide (65 ≤ c.val ∧ c.val ≤ 90) ||
    (decide (97 ≤ c.val) && decide (c.val ≤ 122))) ||
    (decide (48 ≤ c.val) && decide (c.val ≤ 57))) = true at h
  simp only [Bool.or_eq_true, Bool.and_eq_true, decide_eq_true_eq, UInt32.le_iff_toNat_le] at h
  change ((65 ≤ c.toNat ∧ c.toNat ≤ 90) ∨ (97 ≤ c.toNat ∧ c.toNat ≤ 122)) ∨
    (48 ≤ c.toNat ∧ c.toNat ≤ 57) at h
  omega

theorem isCode_hexEscape {n : ℕ} (h : n < 65536) : IsCode (hexEscape n) := by
  have hdigit : ∀ k < 16, (hexDigit k).isAlphanum = true ∧ hexDigit k ≠ '\\' := by decide
  refine ⟨rfl, fun hlast => ?_, fun c hc => ?_⟩
  · exact (hdigit (n % 16) (by omega)).2 (Option.some.inj hlast)
  · simp only [hexEscape, List.mem_cons, List.not_mem_nil, or_false] at hc
    rcases hc with rfl | rfl | rfl | rfl | rfl | rfl
    · exact .inl rfl
    · exact .inr rfl
    · exact .inr (hdigit _ (by omega)).1
    · exact .inr (hdigit _ (by omega)).1
    · exact .inr (hdigit _ (by omega)).1
    · exact .inr (hdigit _ (by omega)).1

/-- How the characters of a string are escaped: a quote and a backslash by a backslash, and any
other one not at all or by a code; printable ASCII is not. -/
structure Escaping where
  escape : Char → Text
  quote : escape '"' = ['\\', '"']
  backslash : escape '\\' = ['\\', '\\']
  printable : ∀ c, 32 ≤ c.toNat → c.toNat < 127 → c ≠ '"' → c ≠ '\\' → escape c = [c]
  other : ∀ c, c ≠ '"' → c ≠ '\\' → escape c = [c] ∨ IsCode (escape c)

theorem isCode_short {c : Char} (h : c.isAlphanum = true) : IsCode ['\\', c] where
  head := rfl
  last hlast := by
    obtain rfl : c = '\\' := Option.some.inj hlast
    cases h
  chars d hd := by
    rcases List.mem_cons.1 hd with rfl | hd
    · exact .inl rfl
    · exact .inr (List.mem_singleton.1 hd ▸ h)

/-- `json.dumps` by default. -/
def Escaping.ascii : Escaping where
  escape := ResidentCrm.escape
  quote := rfl
  backslash := rfl
  printable c hlow hhigh hquote hback := by
    rw [ResidentCrm.escape, if_neg hquote, if_neg hback]
    iterate 5 rw [if_neg (by first | omega | (rintro rfl; revert hlow; decide))]
    rw [if_pos ⟨hlow, by omega⟩]
  other c hquote hback := by
    have hcases := toNat_cases c
    rw [ResidentCrm.escape, if_neg hquote, if_neg hback]
    iterate 5
      split
      · exact .inr (isCode_short rfl)
    split
    · exact .inl rfl
    split
    · next hsmall => exact .inr (isCode_hexEscape hsmall)
    · exact .inr ((isCode_hexEscape (by omega)).append (isCode_hexEscape (by omega)))

/-- `json.dumps` with `ensure_ascii=False`. -/
def Escaping.raw : Escaping where
  escape := escapeRaw
  quote := rfl
  backslash := rfl
  printable c hlow hhigh hquote hback := by
    rw [escapeRaw, if_neg hquote, if_neg hback]
    iterate 6 rw [if_neg (by first | omega | (rintro rfl; revert hlow; decide))]
  other c hquote hback := by
    rw [escapeRaw, if_neg hquote, if_neg hback]
    iterate 5
      split
      · exact .inr (isCode_short rfl)
    split
    · exact .inr (isCode_hexEscape (by omega))
    · exact .inl rfl

namespace Escaping

variable (e : Escaping)

theorem escape_alphanum {c : Char} (h : c.isAlphanum = true) : e.escape c = [c] := by
  have hrange := toNat_of_isAlphanum h
  refine e.printable c (by omega) (by omega) ?_ ?_
  · rintro rfl
    cases h
  · rintro rfl
    cases h

/-- A text that is the value of a string, of a string within a string and so on. -/
def nested : ℕ → Text → Text
  | 0, s => s
  | m + 1, s => (nested m s).flatMap e.escape

theorem nested_nil (m : ℕ) : e.nested m [] = [] := by
  induction m with
  | zero => rfl
  | succ m ih => rw [nested, ih, List.flatMap_nil]

theorem nested_append (m : ℕ) (s t : Text) :
    e.nested m (s ++ t) = e.nested m s ++ e.nested m t := by
  induction m with
  | zero => rfl
  | succ m ih => rw [nested, ih, List.flatMap_append, nested, nested]

theorem nested_cons (m : ℕ) (c : Char) (s : Text) :
    e.nested m (c :: s) = e.nested m [c] ++ e.nested m s := e.nested_append m [c] s

theorem nested_succ' (m : ℕ) (s : Text) : e.nested (m + 1) s = e.nested m (s.flatMap e.escape) := by
  induction m with
  | zero => rfl
  | succ m ih => rw [nested, ih, ← nested]

/-- What is not escaped is not escaped again. -/
theorem nested_of_fixed {s : Text} (h : ∀ c ∈ s, e.escape c = [c]) (m : ℕ) : e.nested m s = s := by
  induction m with
  | zero => rfl
  | succ m ih =>
    rw [nested, ih]
    have hmap : s.flatMap e.escape = s.flatMap fun c => [c] := List.flatMap_congr h
    rw [hmap, List.flatMap_singleton']

theorem flatMap_backslashes (n : ℕ) :
    (List.replicate n '\\').flatMap e.escape = List.replicate (2 * n) '\\' := by
  induction n with
  | zero => rfl
  | succ n ih =>
    rw [List.replicate_succ, List.flatMap_cons, ih, e.backslash, Nat.mul_succ, Nat.add_comm,
      List.replicate_add]
    rfl

theorem nested_backslash (m : ℕ) : e.nested m ['\\'] = List.replicate (2 ^ m) '\\' := by
  induction m with
  | zero => rfl
  | succ m ih => rw [nested, ih, flatMap_backslashes, Nat.pow_succ']

theorem nested_quote (m : ℕ) : e.nested m ['"'] = List.replicate (2 ^ m - 1) '\\' ++ ['"'] := by
  induction m with
  | zero => rfl
  | succ m ih =>
    have hpos : 0 < 2 ^ m := Nat.two_pow_pos m
    have hlevel : 2 ^ (m + 1) - 1 = 2 * (2 ^ m - 1) + 1 := by omega
    rw [nested, ih, List.flatMap_append, flatMap_backslashes, List.flatMap_singleton, e.quote,
      hlevel, List.replicate_succ', List.append_assoc, List.singleton_append]

theorem isCode_flatMap {x : Text} (h : IsCode x) : IsCode (x.flatMap e.escape) where
  head := by
    obtain ⟨y, rfl⟩ := List.head?_eq_some_iff.1 h.head
    rw [List.flatMap_cons, e.backslash]
    rfl
  last := by
    have hne := h.ne_nil
    have hx := List.dropLast_concat_getLast hne
    have hback : x.getLast hne ≠ '\\' := fun heq =>
      h.last ((List.getLast?_eq_some_getLast hne).trans (congrArg some heq))
    have hlast := (h.chars _ (List.getLast_mem hne)).resolve_left hback
    rw [← hx, List.flatMap_append, List.flatMap_singleton, e.escape_alphanum hlast,
      List.getLast?_concat]
    exact fun heq => hback (Option.some.inj heq)
  chars c hc := by
    obtain ⟨d, hd, hcd⟩ := List.mem_flatMap.1 hc
    rcases h.chars d hd with rfl | hd
    · rw [e.backslash] at hcd
      simp only [List.mem_cons, List.not_mem_nil, or_false, or_self] at hcd
      exact .inl hcd
    · rw [e.escape_alphanum hd] at hcd
      exact .inr (List.mem_singleton.1 hcd ▸ hd)

theorem isCode_nested (m : ℕ) {x : Text} (h : IsCode x) : IsCode (e.nested m x) := by
  induction m with
  | zero => exact h
  | succ m ih => exact e.isCode_flatMap ih

theorem nested_other (m : ℕ) {c : Char} (hquote : c ≠ '"') (hback : c ≠ '\\') :
    e.nested m [c] = [c] ∨ IsCode (e.nested m [c]) := by
  rcases e.other c hquote hback with heq | hcode
  · exact .inl (e.nested_of_fixed (fun d hd => List.mem_singleton.1 hd ▸ heq) m)
  · cases m with
    | zero => exact .inl rfl
    | succ m =>
      rw [nested_succ', List.flatMap_singleton]
      exact .inr (e.isCode_nested m hcode)

theorem nested_other_ends (m : ℕ) {c : Char} (hquote : c ≠ '"') (hback : c ≠ '\\') :
    '"' ∉ e.nested m [c] ∧ (e.nested m [c]).getLast? ≠ some '\\' := by
  rcases e.nested_other m hquote hback with heq | hcode
  · rw [heq]
    exact ⟨fun hmem => hquote (List.mem_singleton.1 hmem).symm,
      fun hlast => hback (Option.some.inj hlast)⟩
  · exact ⟨hcode.quote_notMem, hcode.last⟩

theorem nested_ne_nil (m : ℕ) (c : Char) : e.nested m [c] ≠ [] := by
  by_cases hquote : c = '"'
  · rw [hquote, nested_quote]
    exact List.append_ne_nil_of_right_ne_nil _ (List.cons_ne_nil _ _)
  by_cases hback : c = '\\'
  · rw [hback, nested_backslash, ne_eq, List.replicate_eq_nil_iff]
    exact (Nat.two_pow_pos m).ne'
  · rcases e.nested_other m hquote hback with heq | hcode
    · rw [heq]
      exact List.cons_ne_nil _ _
    · exact hcode.ne_nil

/-! ## What follows a quote -/

/-- A run of backslashes, and a quote after it, tell the run. -/
theorem run_inj {a b : ℕ} {s t : Text}
    (h : List.replicate a '\\' ++ '"' :: s = List.replicate b '\\' ++ '"' :: t) :
    a = b ∧ s = t := by
  induction a generalizing b with
  | zero =>
    cases b with
    | zero => exact ⟨rfl, (List.cons.inj h).2⟩
    | succ b => exact absurd (List.cons.inj h).1 (by decide)
  | succ a ih =>
    cases b with
    | zero => exact absurd (List.cons.inj h).1 (by decide)
    | succ b =>
      obtain ⟨rfl, rfl⟩ := ih (List.cons.inj h).2
      exact ⟨rfl, rfl⟩

/-- A run of backslashes at the start of a longer one. -/
theorem run_cut {a b : ℕ} {s t : Text}
    (h : List.replicate a '\\' ++ s = List.replicate b '\\' ++ '"' :: t) :
    ∃ k, b = a + k ∧ s = List.replicate k '\\' ++ '"' :: t := by
  induction a generalizing b with
  | zero => exact ⟨b, (Nat.zero_add b).symm, h⟩
  | succ a ih =>
    cases b with
    | zero => exact absurd (List.cons.inj h).1 (by decide)
    | succ b =>
      obtain ⟨k, rfl, hs⟩ := ih (List.cons.inj h).2
      exact ⟨k, Nat.add_right_comm a k 1, hs⟩

/-- A text without quotes that does not end in a backslash is not part of a run before a quote. -/
theorem ne_run {x s t : Text} {n : ℕ} (hne : x ≠ []) (hquote : '"' ∉ x)
    (hlast : x.getLast? ≠ some '\\') : x ++ s ≠ List.replicate n '\\' ++ '"' :: t := by
  intro h
  have hend : ∀ hmem : x.getLast hne ∈ List.replicate n '\\', False := fun hmem => hlast <| by
    rw [List.getLast?_eq_some_getLast hne, List.eq_of_mem_replicate hmem]
  rcases List.append_eq_append_iff.1 h with ⟨after, hrun, -⟩ | ⟨after, hx, hrest⟩
  · refine hend ?_
    rw [hrun]
    exact List.mem_append_left _ (List.getLast_mem hne)
  · cases after with
    | nil =>
      rw [List.append_nil] at hx
      exact hend (hx ▸ List.getLast_mem hne)
    | cons c after =>
      obtain ⟨rfl, -⟩ := List.cons.inj hrest
      exact hquote (hx ▸ List.mem_append_right _ List.mem_cons_self)

theorem cons_ne_run {a : Char} (hquote : a ≠ '"') (hback : a ≠ '\\') {s t : Text} {n : ℕ} :
    a :: s ≠ List.replicate n '\\' ++ '"' :: t :=
  ne_run (x := [a]) (List.cons_ne_nil _ _) (fun hmem => hquote (List.mem_singleton.1 hmem).symm)
    fun hlast => hback (Option.some.inj hlast)

/-- What a character other than a quote and a backslash becomes is not part of such a run. -/
theorem nested_other_ne_run (m : ℕ) {c : Char} (hquote : c ≠ '"') (hback : c ≠ '\\') {s t : Text}
    {n : ℕ} : e.nested m [c] ++ s ≠ List.replicate n '\\' ++ '"' :: t :=
  ne_run (e.nested_ne_nil m c) (e.nested_other_ends m hquote hback).1
    (e.nested_other_ends m hquote hback).2

/-- **A quote within a string or at its end, after how many backslashes.** -/
theorem nested_eq_run {m n : ℕ} {s r z : Text}
    (h : e.nested (m + 1) s ++ (e.nested m ['"'] ++ r) = List.replicate n '\\' ++ '"' :: z) :
    (∃ i s', s = List.replicate i '\\' ++ '"' :: s' ∧ n + 1 = 2 ^ (m + 1) * (i + 1) ∧
      z = e.nested (m + 1) s' ++ (e.nested m ['"'] ++ r)) ∨
    ∃ i, s = List.replicate i '\\' ∧ n + 1 = 2 ^ (m + 1) * i + 2 ^ m ∧ z = r := by
  have hpos : 0 < 2 ^ m := Nat.two_pow_pos m
  have hpos' : 0 < 2 ^ (m + 1) := Nat.two_pow_pos (m + 1)
  induction s generalizing n with
  | nil =>
    rw [nested_nil, List.nil_append, nested_quote, List.append_assoc, List.singleton_append] at h
    obtain ⟨hn, rfl⟩ := run_inj h
    exact .inr ⟨0, rfl, by omega, rfl⟩
  | cons c s ih =>
    rw [nested_cons, List.append_assoc] at h
    by_cases hquote : c = '"'
    · subst hquote
      rw [nested_quote, List.append_assoc, List.singleton_append] at h
      obtain ⟨hn, rfl⟩ := run_inj h
      exact .inl ⟨0, s, rfl, by omega, rfl⟩
    by_cases hback : c = '\\'
    · subst hback
      rw [nested_backslash] at h
      -- the run goes on after the backslashes of this one
      obtain ⟨k, rfl, hrun⟩ := run_cut h
      rcases ih hrun with ⟨i, s', rfl, hn, hz⟩ | ⟨i, rfl, hn, hz⟩
      · exact .inl ⟨i + 1, s', rfl, by rw [Nat.mul_succ]; omega, hz⟩
      · exact .inr ⟨i + 1, rfl, by rw [Nat.mul_succ]; omega, hz⟩
    · exact absurd h (e.nested_other_ne_run _ hquote hback)

/-- A character of a string that is written as one that needs no escape is that one. -/
theorem nested_eq_cons {m : ℕ} {c a : Char} (hquote : a ≠ '"') (hback : a ≠ '\\') {s t : Text}
    (h : e.nested (m + 1) [c] ++ s = a :: t) : c = a ∧ e.escape c = [c] ∧ s = t := by
  by_cases hc : c = '"'
  · rw [hc, nested_quote, List.append_assoc, List.singleton_append] at h
    exact absurd h.symm (cons_ne_run hquote hback)
  by_cases hc' : c = '\\'
  · obtain ⟨n, hn⟩ := Nat.exists_eq_add_of_lt (Nat.two_pow_pos (m + 1))
    rw [hc', nested_backslash, hn, List.replicate_succ] at h
    exact absurd (List.cons.inj h).1.symm hback
  · rcases e.other c hc hc' with heq | hcode
    · rw [e.nested_of_fixed fun d hd => List.mem_singleton.1 hd ▸ heq] at h
      obtain ⟨rfl, rfl⟩ := List.cons.inj h
      exact ⟨rfl, heq, rfl⟩
    · have hnested := e.isCode_nested m hcode
      rw [nested_succ', List.flatMap_singleton] at h
      obtain ⟨x, hx⟩ := List.head?_eq_some_iff.1 hnested.head
      rw [hx] at h
      exact absurd (List.cons.inj h).1.symm hback

/-- **Characters that are not escaped at the start of a string.** -/
theorem nested_eq_append {m : ℕ} {s k r z : Text} (hk : ∀ c ∈ k, c ≠ '"' ∧ c ≠ '\\')
    (h : e.nested (m + 1) s ++ (e.nested m ['"'] ++ r) = k ++ z) :
    (∀ c ∈ k, e.escape c = [c]) ∧
      ∃ s', s = k ++ s' ∧ z = e.nested (m + 1) s' ++ (e.nested m ['"'] ++ r) := by
  induction k generalizing s with
  | nil => exact ⟨List.forall_mem_nil _, s, rfl, h.symm⟩
  | cons a k ih =>
    obtain ⟨hquote, hback⟩ := hk a List.mem_cons_self
    cases s with
    | nil =>
      rw [nested_nil, List.nil_append, nested_quote, List.append_assoc, List.singleton_append,
        List.cons_append] at h
      exact absurd h.symm (cons_ne_run hquote hback)
    | cons c s =>
      rw [nested_cons, List.append_assoc, List.cons_append] at h
      obtain ⟨rfl, hfixed, hrest⟩ := e.nested_eq_cons hquote hback h
      obtain ⟨hall, s', rfl, hz⟩ := ih (fun c hc => hk c (List.mem_cons_of_mem _ hc)) hrest
      exact ⟨List.forall_mem_cons.2 ⟨hfixed, hall⟩, s', rfl, hz⟩

end Escaping

end ResidentCrm
