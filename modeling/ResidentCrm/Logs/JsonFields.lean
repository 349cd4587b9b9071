import ResidentCrm.Lib.NestedStrings
import ResidentCrm.Logs.Redaction

/-!
# The fields that redaction finds

What the key pattern matches (`keyAt_eq_some`): a key in quotes of one level, a colon and the spaces
around it. `redact_json_fields` copies a text up to the value of the next field, and goes on from
the value, or from its end where it is replaced.
-/

namespace ResidentCrm.Logs.Redaction

/-! ## Keys -/

/-- Keys that no quote, backslash, comma or colon is in. -/
def TameKeys (keys : List Text) : Prop :=
  ∀ key ∈ keys, key ≠ [] ∧ ∀ c ∈ key, c ∉ ['"', '\\', ',', ':']

variable {keys : List Text}

theorem afterPattern_eq_some {key s t : Text} (h : Text.afterPattern key s = some t) :
    ∃ p, s = p ++ t ∧ p.map Text.fold = key := by
  induction key generalizing s with
  | nil => exact ⟨[], Option.some.inj h, rfl⟩
  | cons k key ih =>
    cases s with
    | nil => cases h
    | cons c s =>
      rw [Text.afterPattern] at h
      split at h
      · next hc =>
        obtain ⟨p, rfl, hp⟩ := ih h
        exact ⟨c :: p, rfl, by rw [List.map_cons, hc, hp]⟩
      · cases h

theorem afterPattern_append (p t : Text) :
    Text.afterPattern (p.map Text.fold) (p ++ t) = some t := by
  induction p with
  | nil => rfl
  | cons c p ih =>
    rw [List.map_cons, List.cons_append, Text.afterPattern, if_pos rfl]
    exact ih

theorem isSpelled_iff {key : Text} : isSpelled keys key = true ↔ key.map Text.fold ∈ keys := by
  rw [isSpelled, List.any_eq_true]
  constructor
  · rintro ⟨k, hk, hafter⟩
    obtain ⟨p, hp, rfl⟩ := afterPattern_eq_some (of_decide_eq_true hafter)
    rw [List.append_nil] at hp
    exact hp ▸ hk
  · intro hmem
    refine ⟨_, hmem, decide_eq_true ?_⟩
    have hself := afterPattern_append key []
    rwa [List.append_nil] at hself

theorem fold_of_mark {c : Char} (h : c ∈ ['"', '\\', ',', ':']) : Text.fold c = c := by
  simp only [List.mem_cons, List.not_mem_nil, or_false] at h
  rcases h with rfl | rfl | rfl | rfl
  all_goals rfl

/-- A key that is spelled has characters, none of them a mark. -/
theorem TameKeys.of_spelled (h : TameKeys keys) {key : Text} (hkey : isSpelled keys key = true) :
    key ≠ [] ∧ ∀ c ∈ key, c ∉ ['"', '\\', ',', ':'] := by
  obtain ⟨hne, hmarks⟩ := h _ (isSpelled_iff.1 hkey)
  constructor
  · rintro rfl
    exact hne rfl
  · intro c hc hmark
    refine hmarks (Text.fold c) (List.mem_map_of_mem hc) ?_
    rwa [fold_of_mark hmark]

/-! ## The key pattern -/

theorem afterPrefix_eq_some {start s t : Text} (h : afterPrefix start s = some t) :
    s = start ++ t := by
  unfold afterPrefix at h
  split at h
  · next hprefix =>
    obtain ⟨rest, rfl⟩ := List.isPrefixOf_iff_prefix.1 hprefix
    rw [List.drop_left] at h
    rw [Option.some.inj h]
  · cases h

theorem afterPrefix_append (start t : Text) : afterPrefix start (start ++ t) = some t := by
  rw [afterPrefix, if_pos (List.isPrefixOf_iff_prefix.2 (List.prefix_append _ _)), List.drop_left]

/-- A colon, with spaces around it, and what follows. -/
def afterColon (s : Text) : Option Text :=
  match s.dropWhile Text.isSpace with
  | ':' :: s => some (s.dropWhile Text.isSpace)
  | _ => none

theorem afterKey_eq (level : ℕ) (s : Text) :
    afterKey level s = (afterPrefix (quoteAt level) s).bind afterColon := rfl

theorem quoteAt_append (level : ℕ) (s : Text) :
    quoteAt level ++ s = List.replicate level '\\' ++ '"' :: s := List.append_assoc ..

theorem exists_run (s : Text) :
    ∃ n t, s = List.replicate n '\\' ++ t ∧ t.head? ≠ some '\\' := by
  induction s with
  | nil => exact ⟨0, [], rfl, nofun⟩
  | cons c s ih =>
    by_cases hc : c = '\\'
    · obtain ⟨n, t, rfl, ht⟩ := ih
      exact ⟨n + 1, t, by rw [hc, List.replicate_succ, List.cons_append], ht⟩
    · exact ⟨0, c :: s, rfl, fun h => hc (Option.some.inj h)⟩

/-- The key at a quote after a run of backslashes: what follows the colon. -/
def keyAfter (keys : List Text) (level : ℕ) (s : Text) : Option Text :=
  keys.findSome? fun key => (Text.afterPattern key s).bind (afterKey level)

theorem keyAt_run {n : ℕ} {t : Text} (h : t.head? ≠ some '\\') :
    keyAt keys (List.replicate n '\\' ++ t) =
      if t.head? = some '"' then (keyAfter keys n t.tail).map (n, ·) else none := by
  have hrun : (List.replicate n '\\' ++ t).takeWhile (· = '\\') = List.replicate n '\\' := by
    have hall : ∀ c ∈ List.replicate n '\\', decide (c = '\\') = true :=
      fun c hc => decide_eq_true (List.eq_of_mem_replicate hc)
    have hnone : t.takeWhile (· = '\\') = [] := by
      cases t with
      | nil => rfl
      | cons c t => exact List.takeWhile_cons_of_neg (by simpa using h)
    rw [List.takeWhile_append_of_pos hall, hnone, List.append_nil]
  rw [keyAt, hrun, List.length_replicate, List.drop_left' (List.length_replicate ..)]
  split
  · rfl
  · next hquote =>
    rw [if_neg]
    intro hhead
    obtain ⟨s, rfl⟩ := List.head?_eq_some_iff.1 hhead
    exact hquote s rfl

theorem keyAt_quote (n : ℕ) (s : Text) :
    keyAt keys (quoteAt n ++ s) = (keyAfter keys n s).map (n, ·) := by
  rw [quoteAt_append]
  exact keyAt_run (by simp)

theorem keyAfter_eq_some {level : ℕ} {s v : Text} (h : keyAfter keys level s = some v) :
    ∃ key r, s = key ++ (quoteAt level ++ r) ∧ isSpelled keys key = true ∧
      afterColon r = some v := by
  obtain ⟨k, hk, hafter⟩ := List.exists_of_findSome?_eq_some h
  obtain ⟨t, hpattern, hkey⟩ := Option.bind_eq_some_iff.1 hafter
  obtain ⟨key, rfl, hfold⟩ := afterPattern_eq_some hpattern
  rw [afterKey_eq] at hkey
  obtain ⟨r, hprefix, hcolon⟩ := Option.bind_eq_some_iff.1 hkey
  obtain rfl := afterPrefix_eq_some hprefix
  exact ⟨key, r, rfl, isSpelled_iff.2 (hfold ▸ hk), hcolon⟩

/-- **What the key pattern matches.** -/
theorem keyAt_eq_some {s v : Text} {level : ℕ} (h : keyAt keys s = some (level, v)) :
    ∃ key r, s = quoteAt level ++ (key ++ (quoteAt level ++ r)) ∧ isSpelled keys key = true ∧
      afterColon r = some v := by
  obtain ⟨n, t, rfl, ht⟩ := exists_run s
  rw [keyAt_run ht] at h
  split at h
  · next hhead =>
    obtain ⟨t, rfl⟩ := List.head?_eq_some_iff.1 hhead
    obtain ⟨v', hafter, hpair⟩ := Option.map_eq_some_iff.1 h
    obtain ⟨rfl, rfl⟩ := Prod.mk.inj hpair
    obtain ⟨key, r, rfl, hkey, hcolon⟩ := keyAfter_eq_some hafter
    exact ⟨key, r, (quoteAt_append _ _).symm, hkey, hcolon⟩
  · cases h

/-- Texts without quotes and backslashes, each before a run and a quote, are the same. -/
theorem eq_of_append_quoteAt {a b x y : Text} {l l' : ℕ} (ha : ∀ c ∈ a, c ≠ '"' ∧ c ≠ '\\')
    (hb : ∀ c ∈ b, c ≠ '"' ∧ c ≠ '\\') (h : a ++ (quoteAt l ++ x) = b ++ (quoteAt l' ++ y)) :
    a = b ∧ quoteAt l ++ x = quoteAt l' ++ y := by
  have hhead : ∀ {c : Char} {l : ℕ} {s t : Text}, c ≠ '"' ∧ c ≠ '\\' →
      c :: s ≠ quoteAt l ++ t := by
    intro c l s t hc heq
    rw [quoteAt_append] at heq
    exact Escaping.cons_ne_run hc.1 hc.2 heq
  induction a generalizing b with
  | nil =>
    cases b with
    | nil => exact ⟨rfl, h⟩
    | cons d b => exact absurd h.symm (hhead (hb d List.mem_cons_self))
  | cons c a ih =>
    cases b with
    | nil => exact absurd h (hhead (ha c List.mem_cons_self))
    | cons d b =>
      obtain ⟨rfl, hrest⟩ := List.cons.inj h
      obtain ⟨rfl, htail⟩ := ih (fun c hc => ha c (List.mem_cons_of_mem _ hc))
        (fun c hc => hb c (List.mem_cons_of_mem _ hc)) hrest
      exact ⟨rfl, htail⟩

theorem TameKeys.plain (h : TameKeys keys) {key : Text} (hkey : isSpelled keys key = true) :
    ∀ c ∈ key, c ≠ '"' ∧ c ≠ '\\' := by
  intro c hc
  have hmark := (h.of_spelled hkey).2 c hc
  constructor
  all_goals
    rintro rfl
    exact hmark (by decide)

theorem keyAfter_append {key r : Text} (level : ℕ) (htame : TameKeys keys)
    (hkey : ∀ c ∈ key, c ≠ '"' ∧ c ≠ '\\') :
    keyAfter keys level (key ++ (quoteAt level ++ r)) =
      if isSpelled keys key = true then afterColon r else none := by
  cases hafter : keyAfter keys level (key ++ (quoteAt level ++ r)) with
  | some v =>
    obtain ⟨key', r', heq, hspelled, hcolon⟩ := keyAfter_eq_some hafter
    obtain ⟨rfl, hrest⟩ := eq_of_append_quoteAt hkey (htame.plain hspelled) heq
    rw [if_pos hspelled, List.append_cancel_left hrest, hcolon]
  | none =>
    split
    · next hspelled =>
      have hnone := List.findSome?_eq_none_iff.1 hafter _ (isSpelled_iff.1 hspelled)
      rw [afterPattern_append, Option.bind_some, afterKey_eq, afterPrefix_append,
        Option.bind_some] at hnone
      exact hnone.symm
    · rfl

/-! ## The loop -/

theorem afterColon_length {r v : Text} (h : afterColon r = some v) : v.length < r.length := by
  unfold afterColon at h
  split at h
  · next s hs =>
    have hv : v.length ≤ s.length := by
      rw [← Option.some.inj h]
      exact (List.dropWhile_suffix _).length_le
    have hr : (r.dropWhile Text.isSpace).length ≤ r.length := (List.dropWhile_suffix _).length_le
    rw [hs, List.length_cons] at hr
    omega
  · cases h

theorem length_of_keyAt {s v : Text} {level : ℕ} (h : keyAt keys s = some (level, v)) :
    v.length < s.length := by
  obtain ⟨key, r, rfl, -, hcolon⟩ := keyAt_eq_some h
  have hv := afterColon_length hcolon
  simp only [List.length_append]
  omega

/-- With rounds to spare the loop comes to the same. -/
theorem redactFields_of_le {n : ℕ} {s : Text} (h : s.length ≤ n) :
    redactFields keys n s = redactJsonFields keys s := by
  have hsame : ∀ m n, ∀ s : Text, s.length ≤ m → s.length ≤ n →
      redactFields keys m s = redactFields keys n s := by
    intro m
    induction m with
    | zero =>
      intro n s hm hn
      obtain rfl := List.length_eq_zero_iff.1 (Nat.le_zero.1 hm)
      cases n <;> rfl
    | succ m ih =>
      intro n s hm hn
      cases s with
      | nil => cases n <;> rfl
      | cons c s =>
        cases n with
        | zero => cases hn
        | succ n =>
          rw [List.length_cons, Nat.succ_le_succ_iff] at hm hn
          rw [redactFields, redactFields, ih n s hm hn]
          cases hkey : keyAt keys (c :: s) with
          | none => rfl
          | some found =>
            obtain ⟨level, v⟩ := found
            have hlength := length_of_keyAt hkey
            rw [List.length_cons] at hlength
            dsimp only
            rw [ih n v (by omega) (by omega)]
            cases valueEnd level v with
            | none => rfl
            | some k =>
              have hdrop : (v.drop k).length ≤ v.length := List.length_drop ▸ Nat.sub_le _ _
              dsimp only
              rw [ih n (v.drop k) (by omega) (by omega)]
  exact hsame n s.length s h (Nat.le_refl _)

theorem redactJsonFields_nil : redactJsonFields keys [] = ([], 0) := rfl

theorem redactJsonFields_cons {c : Char} {s : Text} (h : keyAt keys (c :: s) = none) :
    redactJsonFields keys (c :: s) =
      (c :: (redactJsonFields keys s).1, (redactJsonFields keys s).2) := by
  rw [redactJsonFields, List.length_cons, redactFields, h]
  rfl

/-- One round at a field. -/
theorem redactFields_key {key v : Text} {level n : ℕ}
    (h : keyAt keys (key ++ v) = some (level, v)) (hn : (key ++ v).length ≤ n + 1) :
    redactFields keys (n + 1) (key ++ v) =
      match valueEnd level v with
      | none => (key ++ (redactJsonFields keys v).1, (redactJsonFields keys v).2)
      | some k =>
        (key ++ quotedPlaceholder level ++ (redactJsonFields keys (v.drop k)).1,
          (redactJsonFields keys (v.drop k)).2 + 1) := by
  have hlength := length_of_keyAt h
  have hkey : (key ++ v).take ((key ++ v).length - v.length) = key := by
    rw [List.length_append, Nat.add_sub_cancel, List.take_left]
  obtain ⟨c, s, hs⟩ : ∃ c s, key ++ v = c :: s :=
    List.exists_cons_of_ne_nil (List.ne_nil_of_length_pos (Nat.zero_lt_of_lt hlength))
  rw [hs] at h hn hlength hkey ⊢
  rw [List.length_cons] at hn hlength
  rw [redactFields, h]
  dsimp only
  rw [hkey, redactFields_of_le (s := v) (by omega)]
  cases valueEnd level v with
  | none => rfl
  | some k =>
    dsimp only
    rw [redactFields_of_le (s := v.drop k) (by rw [List.length_drop]; omega)]

/-- A field whose value is replaced. -/
theorem redactJsonFields_field {key v : Text} {level k : ℕ}
    (h : keyAt keys (key ++ v) = some (level, v)) (hv : valueEnd level v = some k) :
    redactJsonFields keys (key ++ v) =
      (key ++ quotedPlaceholder level ++ (redactJsonFields keys (v.drop k)).1,
        (redactJsonFields keys (v.drop k)).2 + 1) := by
  rw [← redactFields_of_le (Nat.le_succ _), redactFields_key h (Nat.le_succ _), hv]

/-- A field whose value is left alone. -/
theorem redactJsonFields_left {key v : Text} {level : ℕ}
    (h : keyAt keys (key ++ v) = some (level, v)) (hv : valueEnd level v = none) :
    redactJsonFields keys (key ++ v) =
      (key ++ (redactJsonFields keys v).1, (redactJsonFields keys v).2) := by
  rw [← redactFields_of_le (Nat.le_succ _), redactFields_key h (Nat.le_succ _), hv]

/-- Where no key begins in the first part of a text, it is copied. -/
theorem redactJsonFields_append {p s : Text}
    (h : ∀ x, x ≠ [] → x <:+ p → keyAt keys (x ++ s) = none) :
    redactJsonFields keys (p ++ s) =
      (p ++ (redactJsonFields keys s).1, (redactJsonFields keys s).2) := by
  induction p with
  | nil => rfl
  | cons c p ih =>
    have hfirst : keyAt keys (c :: (p ++ s)) = none :=
      h (c :: p) (List.cons_ne_nil _ _) List.suffix_rfl
    rw [List.cons_append, redactJsonFields_cons hfirst,
      ih fun x hx hsuffix => h x hx (hsuffix.trans (List.suffix_cons _ _))]
    rfl

/-- No key begins at a character that is neither a backslash nor a quote. -/
theorem keyAt_cons_of_plain {c : Char} (hquote : c ≠ '"') (hback : c ≠ '\\') (s : Text) :
    keyAt keys (c :: s) = none := by
  have hrun := @keyAt_run keys 0 (c :: s) fun h => hback (Option.some.inj h)
  rw [List.head?_cons, if_neg fun h => hquote (Option.some.inj h)] at hrun
  exact hrun

theorem redactJsonFields_plain {p : Text} (h : ∀ c ∈ p, c ≠ '"' ∧ c ≠ '\\') (s : Text) :
    redactJsonFields keys (p ++ s) =
      (p ++ (redactJsonFields keys s).1, (redactJsonFields keys s).2) := by
  refine redactJsonFields_append fun x hx hsuffix => ?_
  obtain ⟨c, x, rfl⟩ := List.exists_cons_of_ne_nil hx
  obtain ⟨hquote, hback⟩ := h c (hsuffix.subset List.mem_cons_self)
  exact keyAt_cons_of_plain hquote hback (x ++ s)

end ResidentCrm.Logs.Redaction
