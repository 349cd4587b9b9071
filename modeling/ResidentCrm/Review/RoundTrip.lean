import ResidentCrm.Review.Synthesis
import Mathlib.Data.Bool.Basic

/-!
# Which syntheses are read back

A synthesis that is stored is a JSON text, and `parse_synthesis` looks for a fenced block in it
before anything else. `contract_roundTrips_iff`: it reads back what was written exactly when the two
texts, as they stand between their quotes, hold no fenced block.
-/

namespace ResidentCrm.Synthesis

/-! ## Fenced blocks -/

/-- The text begins and ends with a bracket. -/
def Bracketed (block : Text) : Prop :=
  ∃ c inner d, block = c :: (inner ++ [d]) ∧ (c = '{' ∨ c = '[') ∧ (d = '}' ∨ d = ']')

/-- The block stands between fences, with nothing but a label and whitespace beside it. -/
def FencedAs (block s : Text) : Prop :=
  ∃ front label before after rest, (label = [] ∨ label = "json".toList) ∧
    (∀ c ∈ before ++ after, Text.isSpace c = true) ∧
    s = front ++ (fence ++ (label ++ (before ++ (block ++ (after ++ (fence ++ rest))))))

/-- The text holds a fenced block. -/
def Fenced (s : Text) : Prop := ∃ block, Bracketed block ∧ FencedAs block s

theorem startsFence_iff {s : Text} : startsFence s = true ↔
    ∃ after rest, (∀ c ∈ after, Text.isSpace c = true) ∧ s = after ++ (fence ++ rest) := by
  constructor
  · intro h
    obtain ⟨rest, hrest⟩ := List.isPrefixOf_iff_prefix.1 h
    refine ⟨s.takeWhile Text.isSpace, rest, fun c hc => List.mem_takeWhile_imp hc, ?_⟩
    rw [hrest, List.takeWhile_append_dropWhile]
  · rintro ⟨after, rest, hafter, rfl⟩
    rw [startsFence, List.dropWhile_append_of_pos hafter]
    exact List.isPrefixOf_iff_prefix.2 ⟨rest, rfl⟩

theorem closing_eq_some {s m : Text} (h : closing s = some m) :
    ∃ inner d rest, m = inner ++ [d] ∧ (d = '}' ∨ d = ']') ∧ s = m ++ rest ∧
      startsFence rest = true := by
  induction s generalizing m with
  | nil => cases h
  | cons c s ih =>
    rw [closing] at h
    split_ifs at h with hc
    · obtain rfl := Option.some.inj h
      exact ⟨[], c, s, rfl, hc.1, rfl, hc.2⟩
    · obtain ⟨m, hm, rfl⟩ := Option.map_eq_some_iff.1 h
      obtain ⟨inner, d, rest, rfl, hd, rfl, hrest⟩ := ih hm
      exact ⟨c :: inner, d, rest, rfl, hd, rfl, hrest⟩

theorem isSome_closing {inner rest : Text} {d : Char} (hd : d = '}' ∨ d = ']')
    (h : startsFence rest = true) : (closing (inner ++ d :: rest)).isSome = true := by
  induction inner with
  | nil =>
    rw [List.nil_append, closing, if_pos ⟨hd, h⟩]
    rfl
  | cons c inner ih =>
    rw [List.cons_append, closing]
    split_ifs
    · rfl
    · rw [Option.isSome_map]
      exact ih

theorem group_eq_some {s block : Text} (h : group s = some block) : Bracketed block ∧
    ∃ label before after rest, (label = [] ∨ label = "json".toList) ∧
      (∀ c ∈ before ++ after, Text.isSpace c = true) ∧
      s = label ++ (before ++ (block ++ (after ++ (fence ++ rest)))) := by
  obtain ⟨label, hlabel, hs⟩ : ∃ label, (label = [] ∨ label = "json".toList) ∧
      label ++ (if "json".toList.isPrefixOf s then s.drop "json".toList.length else s) = s := by
    split_ifs with hjson
    · obtain ⟨t, ht⟩ := List.isPrefixOf_iff_prefix.1 hjson
      refine ⟨_, .inr rfl, ?_⟩
      rw [← ht, List.drop_left]
    · exact ⟨[], .inl rfl, rfl⟩
  simp only [group] at h
  generalize (if "json".toList.isPrefixOf s then s.drop "json".toList.length else s) = t at h hs
  split at h
  · cases h
  · next c u hdrop =>
    split_ifs at h with hc
    obtain ⟨m, hm, rfl⟩ := Option.map_eq_some_iff.1 h
    obtain ⟨inner, d, rest, rfl, hd, rfl, hrest⟩ := closing_eq_some hm
    obtain ⟨after, rest, hafter, rfl⟩ := startsFence_iff.1 hrest
    refine ⟨⟨c, inner, d, rfl, hc, hd⟩, label, t.takeWhile Text.isSpace, after, rest, hlabel, ?_,
      ?_⟩
    · intro c hc
      rcases List.mem_append.1 hc with hc | hc
      · exact List.mem_takeWhile_imp hc
      · exact hafter c hc
    · have hparts : t.takeWhile Text.isSpace ++ c :: (inner ++ [d] ++ (after ++ (fence ++ rest))) =
          t := by
        rw [← hdrop]
        exact List.takeWhile_append_dropWhile
      rw [← hs]
      exact congrArg (label ++ ·) hparts.symm

theorem isSome_group {label before block after rest : Text} (hblock : Bracketed block)
    (hlabel : label = [] ∨ label = "json".toList)
    (hspace : ∀ c ∈ before ++ after, Text.isSpace c = true) :
    (group (label ++ (before ++ (block ++ (after ++ (fence ++ rest)))))).isSome = true := by
  obtain ⟨c, inner, d, rfl, hc, hd⟩ := hblock
  have hbefore : ∀ c ∈ before, Text.isSpace c = true := fun c hc => hspace c (by simp [hc])
  have hafter : ∀ c ∈ after, Text.isSpace c = true := fun c hc => hspace c (by simp [hc])
  have hbracket : Text.isSpace c = false ∧ c ≠ 'j' := by rcases hc with rfl | rfl <;> decide
  -- what follows the label
  have hunlabelled : ∀ t : Text, t = before ++ c :: (inner ++ d :: (after ++ (fence ++ rest))) →
      (if "json".toList.isPrefixOf (label ++ t) then (label ++ t).drop "json".toList.length
        else label ++ t) = t := by
    rintro t rfl
    rcases hlabel with rfl | rfl
    · rw [List.nil_append, if_neg]
      intro hjson
      obtain ⟨u, hu⟩ := List.isPrefixOf_iff_prefix.1 hjson
      cases before with
      | nil => exact hbracket.2 (List.cons.inj hu).1.symm
      | cons e before =>
        have he := hbefore e List.mem_cons_self
        rw [← (List.cons.inj hu).1] at he
        cases he
    · rw [if_pos (List.isPrefixOf_iff_prefix.2 (List.prefix_append _ _)), List.drop_left]
  simp only [group, List.cons_append, List.append_assoc, List.nil_append,
    hunlabelled _ rfl, List.dropWhile_append_of_pos hbefore]
  rw [List.dropWhile_cons_of_neg (by rw [hbracket.1]; decide)]
  simp only [hc, if_true, Option.isSome_map]
  exact isSome_closing hd (startsFence_iff.2 ⟨after, rest, hafter, rfl⟩)

theorem fenced_eq_some {s block : Text} (h : fenced s = some block) :
    Bracketed block ∧ FencedAs block s := by
  obtain ⟨t, ht, hgroup⟩ := List.exists_of_findSome?_eq_some h
  split_ifs at hgroup with hfence
  obtain ⟨u, rfl⟩ := List.isPrefixOf_iff_prefix.1 hfence
  obtain ⟨front, rfl⟩ := (List.mem_tails _ _).1 ht
  rw [List.drop_left] at hgroup
  obtain ⟨hblock, label, before, after, rest, hlabel, hspace, rfl⟩ := group_eq_some hgroup
  exact ⟨hblock, front, label, before, after, rest, hlabel, hspace, rfl⟩

/-- **A block is found where there is one.** -/
theorem fenced_eq_none_iff {s : Text} : fenced s = none ↔ ¬ Fenced s := by
  constructor
  · rintro h ⟨block, hblock, front, label, before, after, rest, hlabel, hspace, rfl⟩
    have hnone := List.findSome?_eq_none_iff.1 h _ ((List.mem_tails _ _).2 ⟨front, rfl⟩)
    rw [if_pos (List.isPrefixOf_iff_prefix.2 (List.prefix_append _ _)), List.drop_left] at hnone
    have hsome : (group (label ++ (before ++ (block ++ (after ++ (fence ++ rest)))))).isSome =
        true := isSome_group hblock hlabel hspace
    rw [hnone] at hsome
    cases hsome
  · intro h
    cases hfenced : fenced s with
    | none => rfl
    | some block => exact absurd ⟨block, fenced_eq_some hfenced⟩ h

/-! ## Where a block can stand -/

/-- What begins and ends with a character that is not beside the text is within it. -/
theorem within_of_notMem {c : Char} {before s after front mid rest : Text} (hbefore : c ∉ before)
    (hafter : c ∉ after) (h : before ++ (s ++ after) = front ++ c :: (mid ++ c :: rest)) :
    ∃ front' rest', s = front' ++ c :: (mid ++ c :: rest') := by
  obtain ⟨front', hfront⟩ : ∃ front', s ++ after = front' ++ c :: (mid ++ c :: rest) := by
    rcases List.append_eq_append_iff.1 h with ⟨front', -, hs⟩ | ⟨tail, rfl, htail⟩
    · exact ⟨front', hs⟩
    · cases tail with
      | nil => exact ⟨[], htail.symm⟩
      | cons d tail =>
        obtain ⟨rfl, -⟩ := List.cons.inj htail
        exact absurd (by simp) hbefore
  have hend : s ++ after = (front' ++ c :: mid) ++ c :: rest := by rw [hfront]; simp
  rcases List.append_eq_append_iff.1 hend with ⟨tail, -, rfl⟩ | ⟨tail, rfl, htail⟩
  · exact absurd (by simp) hafter
  · cases tail with
    | nil =>
      rw [List.nil_append] at htail
      exact absurd (htail ▸ List.mem_cons_self) hafter
    | cons d tail =>
      obtain ⟨rfl, -⟩ := List.cons.inj htail
      exact ⟨front', tail, by simp⟩

theorem fencedAs_append {before s after block : Text} (hbefore : '`' ∉ before)
    (hafter : '`' ∉ after) : FencedAs block (before ++ (s ++ after)) ↔ FencedAs block s := by
  constructor
  · rintro ⟨front, label, space, space', rest, hlabel, hspace, h⟩
    have hends : before ++ (s ++ after) = front ++ '`' ::
        (['`', '`'] ++ (label ++ (space ++ (block ++ (space' ++ ['`', '`'])))) ++ '`' :: rest) := by
      rw [h]
      simp [fence]
    obtain ⟨front', rest', hs⟩ := within_of_notMem hbefore hafter hends
    refine ⟨front', label, space, space', rest', hlabel, hspace, ?_⟩
    rw [hs]
    simp [fence]
  · rintro ⟨front, label, space, space', rest, hlabel, hspace, rfl⟩
    refine ⟨before ++ front, label, space, space', rest ++ after, hlabel, hspace, ?_⟩
    simp

theorem fenced_append {before s after : Text} (hbefore : '`' ∉ before) (hafter : '`' ∉ after) :
    Fenced (before ++ (s ++ after)) ↔ Fenced s :=
  exists_congr fun _ => and_congr_right fun _ => fencedAs_append hbefore hafter

/-! ## Reading a dict of two texts -/

/-- What is written before the first text. -/
def opening (style : Style) : Text :=
  '{' :: (style.string "rejection_description".toList ++ ':' :: (style.space ++ ['"']))

/-- The two texts as they stand in what is written. -/
def written (style : Style) (a b : Text) : Text := style.between "synthesis".toList a b

/-- The items of two texts and of what follows them. -/
def withTexts (a b : Text) (items : List (Text × Scalar)) : List (Text × Scalar) :=
  ("rejection_description".toList, .string a) :: ("synthesis".toList, .string b) :: items

section

variable {style : Style} {a b : Text} {items : List (Text × Scalar)}

theorem dict_withTexts (style : Style) (a b : Text) (items : List (Text × Scalar)) :
    style.dict (withTexts a b items) =
      opening style ++ (written style a b ++ '"' :: style.rest items) := by
  simp [withTexts, opening, written, Style.between, Style.dict, Style.rest, Style.item,
    Style.scalar, Style.string]

theorem extractJsonBlock_of_fenced {text block : Text} (h : fenced text = some block) :
    extractJsonBlock text = some block := by
  have hne : text ≠ [] := by
    rintro rfl
    obtain ⟨-, front, label, before, after, rest, -, -, hnil⟩ := fenced_eq_some h
    have hlength := congrArg List.length hnil
    simp [fence] at hlength
  rw [extractJsonBlock, if_neg hne, h]

/-- A text between braces is its own block, unless a fenced one is in it. -/
theorem extractJsonBlock_of_braces {t : Text} (h : ¬ Fenced ('{' :: (t ++ ['}']))) :
    extractJsonBlock ('{' :: (t ++ ['}'])) = some ('{' :: (t ++ ['}'])) := by
  have hbraced : braced ('{' :: (t ++ ['}'])) = some ('{' :: (t ++ ['}'])) := by
    rw [braced, List.dropWhile_cons_of_neg (by decide), ← List.cons_append,
      List.rdropWhile_concat_neg _ _ _ (by decide)]
    rfl
  rw [extractJsonBlock, if_neg (List.cons_ne_nil _ _), fenced_eq_none_iff.2 h, hbraced]

theorem rest_concat (style : Style) (items : List (Text × Scalar)) :
    ∃ t, style.rest items = t ++ ['}'] := by
  induction items with
  | nil => exact ⟨[], rfl⟩
  | cons item items ih =>
    obtain ⟨t, ht⟩ := ih
    exact ⟨',' :: (style.space ++ style.item item ++ t), by simp [Style.rest, ht]⟩

theorem tick_notMem_rest {style : Style} {items : List (Text × Scalar)}
    (hspace : '`' ∉ style.space)
    (h : ∀ item ∈ items, '`' ∉ style.string item.1 ∧ '`' ∉ style.scalar item.2) :
    '`' ∉ style.rest items := by
  induction items with
  | nil =>
    rw [Style.rest]
    decide
  | cons item items ih =>
    have hitem := h item List.mem_cons_self
    have hrest := ih fun i hi => h i (List.mem_cons_of_mem _ hi)
    simp [Style.rest, Style.item, hspace, hitem, hrest]

theorem fenced_dict (hbefore : '`' ∉ opening style) (hafter : '`' ∉ style.rest items) :
    Fenced (style.dict (withTexts a b items)) ↔ Fenced (written style a b) := by
  rw [dict_withTexts]
  refine fenced_append hbefore fun hmem => ?_
  rcases List.mem_cons.1 hmem with h | h
  · exact absurd h (by decide)
  · exact hafter h

theorem loads_array {m : Text} {v : Json} (h : loads ('[' :: m) = some v) : ∃ l, v = .array l := by
  simp only [loads, Option.bind_eq_bind, Option.bind_eq_some_iff] at h
  obtain ⟨⟨v', r⟩, hread, hend⟩ := h
  split_ifs at hend
  obtain rfl := Option.some.inj hend
  rw [skipSpace_cons rfl, readValue] at hread
  obtain ⟨⟨l, r'⟩, -, hpair⟩ := Option.map_eq_some_iff.1 hread
  exact ⟨l, (Prod.mk.inj hpair).1.symm⟩

variable {R : Type} [LinearOrder R] (p : Coercion R)

theorem validate_nil : ∃ e, validate p [] = .error e := ⟨_, rfl⟩

/-- **A fenced block of the texts is read instead of the dict, and is no result.** -/
theorem parse_of_fenced (hbrace : '{' ∉ style.string "synthesis".toList)
    (hbefore : '`' ∉ opening style) (hafter : '`' ∉ style.rest items)
    (h : Fenced (written style a b)) :
    ∃ e, parseSynthesis p (style.dict (withTexts a b items)) = .error e := by
  cases hfenced : fenced (style.dict (withTexts a b items)) with
  | none => exact absurd ((fenced_dict hbefore hafter).2 h) (fenced_eq_none_iff.1 hfenced)
  | some block =>
    obtain ⟨⟨c, inner, d, rfl, hc, -⟩, hfencedAs⟩ := fenced_eq_some hfenced
    have hclosing : '`' ∉ '"' :: style.rest items := fun hmem => by
      rcases List.mem_cons.1 hmem with h | h
      · exact absurd h (by decide)
      · exact hafter h
    rw [dict_withTexts, fencedAs_append hbefore hclosing] at hfencedAs
    obtain ⟨front, label, before, after, rest, -, -, htexts⟩ := hfencedAs
    rw [parseSynthesis, extractJsonBlock_of_fenced hfenced]
    cases hloads : loads (c :: (inner ++ [d])) with
    | none => exact ⟨.notJson, by simp only [hloads]⟩
    | some v =>
      rcases hc with rfl | rfl
      · have hwithin : written style a b = (front ++ (fence ++ (label ++ before))) ++
            '{' :: ((inner ++ [d]) ++ (after ++ (fence ++ rest))) := by
          rw [htexts]
          simp
        obtain rfl := style.object_of_between ⟨'s', rfl, rfl, by decide⟩ hbrace hwithin hloads
        obtain ⟨e, he⟩ := validate_nil p
        exact ⟨e, by simp only [hloads, he]⟩
      · obtain ⟨l, rfl⟩ := loads_array hloads
        exact ⟨.notDict, by simp only [hloads]⟩

/-- **Without a fenced block the dict is read.** -/
theorem parse_of_not_fenced (hbefore : '`' ∉ opening style) (hafter : '`' ∉ style.rest items)
    (hvalid : ∀ item ∈ withTexts a b items, (Json.scalar item.2).Valid)
    (hkeys : ((withTexts a b items).map Prod.fst).Nodup) (h : ¬ Fenced (written style a b)) :
    parseSynthesis p (style.dict (withTexts a b items)) =
      validate p (Style.fields (withTexts a b items)) := by
  have hblock : extractJsonBlock (style.dict (withTexts a b items)) =
      some (style.dict (withTexts a b items)) := by
    obtain ⟨t, ht⟩ := rest_concat style (("synthesis".toList, .string b) :: items)
    have hdict : style.dict (withTexts a b items) =
        '{' :: ((style.item ("rejection_description".toList, .string a) ++ t) ++ ['}']) := by
      rw [withTexts, Style.dict, ht, List.append_assoc]
    rw [hdict]
    refine extractJsonBlock_of_braces ?_
    rw [← hdict, fenced_dict hbefore hafter]
    exact h
  rw [parseSynthesis, hblock]
  simp only [style.loads_dict hvalid hkeys]

end

/-! ## What is read of a result -/

section

variable {R : Type} [LinearOrder R] (p : Coercion R)

/-- The confidence is written as null, or is one the field accepts. -/
def Coercion.Reads (confidence : Option R) : Prop :=
  ∀ x ∈ confidence, (p.write x).isSome = true → p.zero ≤ x ∧ x ≤ p.one

/-- What a confidence is read as. -/
def readConfidence (confidence : Option R) (h : p.Reads confidence) : Option p.Unit :=
  confidence.pbind fun x hx => if hw : (p.write x).isSome = true then some ⟨x, h x hx hw⟩ else none

/-- The result that is read of one that is written. -/
def reread (r : SynthesisResult R) (h : p.Reads r.confidence) : SynthesisResult p.Unit where
  rejectionDescription := r.rejectionDescription
  synthesis := r.synthesis
  action := r.action
  residentAction := r.residentAction
  confidence := readConfidence p r.confidence h
  abstained := r.abstained

theorem find_action (action : Action) : Action.all.find? (·.text = action.text) = some action := by
  cases action <;> rfl

theorem find_residentAction (action : ResidentAction) :
    ResidentAction.all.find? (·.text = action.text) = some action := by
  cases action <;> rfl

theorem lookup_confidence (r : SynthesisResult R) :
    (Style.fields (items p r)).lookup "confidence".toList =
      some (.scalar (confidenceScalar p r.confidence)) := rfl

theorem confidenceField_items (r : SynthesisResult R) (h : p.Reads r.confidence) :
    confidenceField p (Style.fields (items p r)) = some (readConfidence p r.confidence h) := by
  rw [confidenceField, lookup_confidence]
  obtain ⟨_, _, _, _, _ | x, _⟩ := r
  · rfl
  · cases hwrite : p.write x with
    | none => simp [confidenceScalar, readConfidence, hwrite]
    | some n =>
      have hunit : p.zero ≤ x ∧ x ≤ p.one := h x rfl (by rw [hwrite]; rfl)
      simp [confidenceScalar, readConfidence, hwrite, p.float_write x n hwrite, hunit]

theorem confidenceField_items_none (r : SynthesisResult R) (h : ¬ p.Reads r.confidence) :
    confidenceField p (Style.fields (items p r)) = none := by
  rw [confidenceField, lookup_confidence]
  simp only [Coercion.Reads, not_forall] at h
  obtain ⟨x, hx, hwrite, hunit⟩ := h
  obtain ⟨n, hn⟩ := Option.isSome_iff_exists.1 hwrite
  have hconfidence : r.confidence = some x := hx
  simp [confidenceScalar, hconfidence, hn, p.float_write x n hn, hunit]

/-- But for its confidence every field of a result is read. -/
theorem validate_items (r : SynthesisResult R) : validate p (Style.fields (items p r)) =
    match confidenceField p (Style.fields (items p r)) with
    | some confidence => .ok
      { rejectionDescription := r.rejectionDescription, synthesis := r.synthesis,
        action := r.action, residentAction := r.residentAction, confidence,
        abstained := r.abstained }
    | none => .error (.invalid ["confidence".toList]) := by
  have hd : strField (Style.fields (items p r)) "rejection_description".toList =
      some r.rejectionDescription := rfl
  have hs : strField (Style.fields (items p r)) "synthesis".toList = some r.synthesis := rfl
  have ha : literalField (Style.fields (items p r)) Action.all Action.text "action".toList =
      some r.action := find_action r.action
  have hr : literalField (Style.fields (items p r)) ResidentAction.all ResidentAction.text
      "resident_action".toList = some r.residentAction := find_residentAction r.residentAction
  have hb : abstainedField p (Style.fields (items p r)) = some r.abstained := p.bool_bool _
  unfold validate
  rw [hd, hs, ha, hr, hb]
  cases confidenceField p (Style.fields (items p r)) <;> rfl

/-- The items of a result after its texts. -/
def otherItems (r : SynthesisResult R) : List (Text × Scalar) :=
  [("action".toList, .string r.action.text),
    ("resident_action".toList, .string r.residentAction.text),
    ("confidence".toList, confidenceScalar p r.confidence),
    ("abstained".toList, .bool r.abstained)]

theorem confidenceScalar_cases (confidence : Option R) : confidenceScalar p confidence = .null ∨
    ∃ n, confidenceScalar p confidence = .number n ∧ isNumberText n.repr = true := by
  cases confidence with
  | none => exact .inl rfl
  | some x =>
    cases hwrite : p.write x with
    | none => exact .inl (by simp [confidenceScalar, hwrite])
    | some n => exact .inr ⟨n, by simp [confidenceScalar, hwrite], p.isNumberText_write x n hwrite⟩

theorem tick_notMem_otherItems (r : SynthesisResult R) :
    '`' ∉ Style.compact.rest (otherItems p r) := by
  have hkeys : ∀ key ∈ ["action".toList, "resident_action".toList, "confidence".toList,
      "abstained".toList], '`' ∉ Style.compact.string key := by decide
  have haction : '`' ∉ Style.compact.string r.action.text := by cases r.action <;> decide
  have hresident : '`' ∉ Style.compact.string r.residentAction.text := by
    cases r.residentAction <;> decide
  have hconfidence : '`' ∉ Style.compact.scalar (confidenceScalar p r.confidence) := by
    rcases confidenceScalar_cases p r.confidence with h | ⟨n, h, -⟩
    · rw [h]
      decide
    · rw [h]
      exact fun hmem => absurd (n.numeric _ hmem) (by decide)
  have habstained : '`' ∉ Style.compact.scalar (.bool r.abstained) := by
    cases r.abstained <;> decide
  refine tick_notMem_rest List.not_mem_nil fun item hitem => ⟨?_, ?_⟩
  · exact hkeys _ (List.mem_map_of_mem (f := Prod.fst) hitem)
  · simp only [otherItems, List.mem_cons, List.not_mem_nil, or_false] at hitem
    rcases hitem with rfl | rfl | rfl | rfl
    · exact haction
    · exact hresident
    · exact hconfidence
    · exact habstained

theorem valid_scalar {v : Scalar} (h : ∀ n, v = .number n → isNumberText n.repr = true) :
    (Json.scalar v).Valid := by
  cases v with
  | number n =>
    rw [Json.Valid]
    exact h n rfl
  | _ => simp [Json.Valid]

/-- A result is read where its texts hold no fenced block. -/
theorem parse_modelDumpJson (r : SynthesisResult R) (h : ¬ Fenced (written Style.compact
    r.rejectionDescription r.synthesis)) : parseSynthesis p (modelDumpJson p r) =
      validate p (Style.fields (items p r)) := by
  have hkeys : ["rejection_description".toList, "synthesis".toList, "action".toList,
      "resident_action".toList, "confidence".toList, "abstained".toList].Nodup := by decide
  refine parse_of_not_fenced p (by decide) (tick_notMem_otherItems p r) (fun item hitem => ?_)
    hkeys h
  refine valid_scalar fun n hn => ?_
  have hconfidence : confidenceScalar p r.confidence = .number n := by
    simp only [withTexts, List.mem_cons, List.not_mem_nil, or_false] at hitem
    rcases hitem with rfl | rfl | rfl | rfl | rfl | rfl
    case inr.inr.inr.inr.inl => exact hn
    all_goals cases hn
  rcases confidenceScalar_cases p r.confidence with h | ⟨m, h, hm⟩
  · rw [hconfidence] at h
    cases h
  · obtain rfl := Scalar.number.inj (hconfidence.symm.trans h)
    exact hm

theorem parse_modelDumpJson_of_fenced (r : SynthesisResult R) (h : Fenced (written Style.compact
    r.rejectionDescription r.synthesis)) :
    ∃ e, parseSynthesis p (modelDumpJson p r) = .error e :=
  parse_of_fenced p (by decide) (by decide) (tick_notMem_otherItems p r) h

/-- **An escalation is read back exactly where its texts hold no fenced block.** -/
theorem parse_dumps_iff (e : Escalation) : parseSynthesis p e.dumps = .ok e.result ↔
    ¬ Fenced (written Style.ascii e.rejectionDescription e.synthesis) := by
  have hbefore : '`' ∉ opening Style.ascii := by decide
  have hafter : '`' ∉ Style.ascii.rest [("action".toList, .string "MANUAL_REVIEW".toList),
    ("resident_action".toList, .string "PENDING".toList)] := by decide
  have hkeys : ["rejection_description".toList, "synthesis".toList, "action".toList,
      "resident_action".toList].Nodup := by decide
  constructor
  · intro h hfenced
    obtain ⟨refusal, hrefusal⟩ := parse_of_fenced p (by decide) hbefore hafter hfenced
    cases hrefusal.symm.trans h
  · intro h
    refine (parse_of_not_fenced p hbefore hafter (fun item hitem => ?_) hkeys h).trans rfl
    refine valid_scalar fun n hn => ?_
    simp only [withTexts, List.mem_cons, List.not_mem_nil, or_false] at hitem
    rcases hitem with rfl | rfl | rfl | rfl <;> cases hn

/-! ## The round trip -/

theorem reads_raw (r : SynthesisResult p.Unit) : p.Reads (r.raw p).confidence := by
  rintro x hx -
  obtain ⟨y, -, rfl⟩ := Option.map_eq_some_iff.1 hx
  exact y.2

theorem readConfidence_raw (confidence : Option p.Unit)
    (h : p.Reads (confidence.map Subtype.val)) :
    readConfidence p (confidence.map Subtype.val) h = confidence := by
  cases confidence with
  | none => rfl
  | some x => simp [readConfidence, p.finite x.1 x.2.1 x.2.2]

theorem parse_raw_iff (r : SynthesisResult p.Unit) :
    parseSynthesis p (modelDumpJson p (r.raw p)) = .ok r ↔
      ¬ Fenced (written Style.compact r.rejectionDescription r.synthesis) := by
  constructor
  · intro h hfenced
    obtain ⟨refusal, hrefusal⟩ := parse_modelDumpJson_of_fenced p (r.raw p) hfenced
    cases hrefusal.symm.trans h
  · intro h
    have hconfidence := confidenceField_items p (r.raw p) (reads_raw p r)
    rw [parse_modelDumpJson p (r.raw p) h, validate_items, hconfidence]
    have hback := readConfidence_raw p r.confidence (reads_raw p r)
    simp only [SynthesisResult.raw, hback]

variable {p} in
/-- The action and the texts are the same. -/
def SynthesisResult.Agrees (read : SynthesisResult p.Unit) (stored : SynthesisResult R) : Prop :=
  read.rejectionDescription = stored.rejectionDescription ∧ read.synthesis = stored.synthesis ∧
    read.action = stored.action ∧ read.residentAction = stored.residentAction

theorem parse_agrees_iff (r : SynthesisResult R) :
    (∃ read, parseSynthesis p (modelDumpJson p r) = .ok read ∧ read.Agrees r) ↔
      ¬ Fenced (written Style.compact r.rejectionDescription r.synthesis) ∧
        p.Reads r.confidence := by
  constructor
  · rintro ⟨read, hread, -⟩
    have hplain : ¬ Fenced (written Style.compact r.rejectionDescription r.synthesis) := by
      intro hfenced
      obtain ⟨refusal, hrefusal⟩ := parse_modelDumpJson_of_fenced p r hfenced
      cases hrefusal.symm.trans hread
    refine ⟨hplain, ?_⟩
    by_contra hconfidence
    rw [parse_modelDumpJson p r hplain, validate_items,
      confidenceField_items_none p r hconfidence] at hread
    cases hread
  · rintro ⟨hplain, hconfidence⟩
    refine ⟨reread p r hconfidence, ?_, rfl, rfl, rfl, rfl⟩
    rw [parse_modelDumpJson p r hplain, validate_items, confidenceField_items p r hconfidence]
    rfl

/-- The least ceiling in force is no number below zero, or there is no confidence to lower. -/
def Bounded (config : Ceilings R) (r : SynthesisResult p.Unit) (logs : Text)
    (defaultPack : Bool) : Prop :=
  r.confidence = none ∨ ∀ ceiling ∈ leastCeiling config logs defaultPack,
    (p.write ceiling).isSome = true → p.zero ≤ ceiling

theorem confidence_policy (config : Ceilings R) (result : SynthesisResult R) (logs : Text)
    (defaultPack : Bool) : (applyConfidencePolicy p config result logs defaultPack).confidence =
      result.confidence.map (lowered (leastCeiling config logs defaultPack)) := by
  simp only [applyConfidencePolicy]
  split <;> rfl

theorem reads_policy_iff (config : Ceilings R) (r : SynthesisResult p.Unit) (logs : Text)
    (defaultPack : Bool) :
    p.Reads (applyConfidencePolicy p config (r.raw p) logs defaultPack).confidence ↔
      Bounded p config r logs defaultPack := by
  rw [confidence_policy, SynthesisResult.raw, Bounded]
  cases hconfidence : r.confidence with
  | none => exact iff_of_true (fun x hx => by cases hx) (.inl rfl)
  | some c =>
    obtain ⟨c, hzero, hone⟩ := c
    simp only [Option.map_some, reduceCtorEq, false_or, Coercion.Reads, Option.mem_def,
      Option.some.injEq, forall_eq']
    cases leastCeiling config logs defaultPack with
    | none =>
      refine iff_of_true (fun _ => ⟨hzero, hone⟩) fun ceiling hceiling => ?_
      cases hceiling
    | some ceiling =>
      rw [lowered]
      split_ifs with hlt
      · constructor
        · rintro h _ ⟨⟩ hwrite
          exact (h hwrite).1
        · intro h hwrite
          exact ⟨h ceiling rfl hwrite, hlt.le.trans hone⟩
      · -- a ceiling that does not lower the confidence is above zero with it
        refine iff_of_true (fun _ => ⟨hzero, hone⟩) ?_
        rintro _ ⟨⟩ -
        exact hzero.trans (not_lt.1 hlt)

/-- **What is stored as a synthesis is read back exactly where its texts hold no fenced block**, and
no ceiling below zero has lowered its confidence. -/
theorem contract_roundTrips_iff :
    (∀ r : SynthesisResult p.Unit, parseSynthesis p (modelDumpJson p (r.raw p)) = .ok r ↔
      ¬ Fenced (written Style.compact r.rejectionDescription r.synthesis)) ∧
    (∀ (config : Ceilings R) (r : SynthesisResult p.Unit) (logs : Text) (defaultPack : Bool),
      let stored := applyConfidencePolicy p config (r.raw p) logs defaultPack
      (∃ read, parseSynthesis p (modelDumpJson p stored) = .ok read ∧ read.Agrees stored) ↔
        ¬ Fenced (written Style.compact stored.rejectionDescription stored.synthesis) ∧
          Bounded p config r logs defaultPack) ∧
    (∀ investigation feedback : Text,
      let stored := escalationResult investigation feedback
      parseSynthesis p stored.dumps = .ok stored.result ↔
        ¬ Fenced (written Style.ascii stored.rejectionDescription stored.synthesis)) ∧
    ∀ error : Text,
      let stored := unrepairable error
      parseSynthesis p stored.dumps = .ok stored.result ↔
        ¬ Fenced (written Style.ascii stored.rejectionDescription stored.synthesis) := by
  refine ⟨parse_raw_iff p, fun config r logs defaultPack => ?_, fun investigation feedback => ?_,
    fun error => ?_⟩
  · intro stored
    rw [parse_agrees_iff, reads_policy_iff]
  · exact parse_dumps_iff p _
  · exact parse_dumps_iff p _

end

/-- The two ends of the interval as they are written. -/
def endNumber (b : Bool) : Number where
  repr := if b then "1.0".toList else "0.0".toList
  ne_nil := by cases b <;> decide
  numeric c hc := by
    have hall : (if b then "1.0".toList else "0.0".toList).all isNumeric = true := by
      cases b <;> decide
    exact List.all_eq_true.1 hall c hc

/-- The two ends of the interval as the floats. -/
def endsOnly : Coercion Bool where
  zero := false
  one := true
  write b := some (endNumber b)
  float
    | .number n => if n.repr = "1.0".toList then some true
      else if n.repr = "0.0".toList then some false else none
    | _ => none
  bool
    | .bool b => some b
    | _ => none
  isNumberText_write x n hn := by
    obtain rfl := Option.some.inj hn
    cases x <;> decide
  float_write x n hn := by
    obtain rfl := Option.some.inj hn
    cases x <;> decide
  finite x _ _ := rfl
  bool_bool _ := rfl

/-- An approved result that quotes a fenced block. -/
def quotingFence : SynthesisResult endsOnly.Unit where
  rejectionDescription := "The log reads ``` {} ``` at 10:04.".toList
  synthesis := "Replay.".toList
  action := .replay
  residentAction := .pending
  confidence := some ⟨true, by decide⟩
  abstained := false

theorem quotingFence_refused :
    parseSynthesis endsOnly (modelDumpJson endsOnly (quotingFence.raw endsOnly)) ≠
      .ok quotingFence := by
  have hfenced : Fenced (written Style.compact quotingFence.rejectionDescription
      quotingFence.synthesis) :=
    ⟨"{}".toList, ⟨'{', [], '}', rfl, .inl rfl, .inl rfl⟩, "The log reads ".toList, [], [' '],
      [' '], " at 10:04.\",\"synthesis\":\"Replay.".toList, .inl rfl,
      fun c hc => List.all_eq_true.1 (rfl : [' ', ' '].all Text.isSpace = true) c hc, by decide⟩
  exact fun h => (parse_raw_iff endsOnly quotingFence).1 h hfenced

end ResidentCrm.Synthesis
