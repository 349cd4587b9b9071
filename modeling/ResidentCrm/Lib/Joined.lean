import ResidentCrm.Lib.Words

/-!
# Joined lines, cut

`"\n".join` of pieces, each of one line or of several. A text that is joined from pieces and cut at
some place is joined from the pieces before the place and from those after it, one of them cut
(`joinLines_before`, `joinLines_after`).
-/

namespace ResidentCrm.Text

/-- `"\n".join`. -/
def joinLines (pieces : List Text) : Text := ['\n'].intercalate pieces

@[simp] theorem joinLines_nil : joinLines [] = [] := rfl

@[simp] theorem joinLines_singleton (piece : Text) : joinLines [piece] = piece := by
  simp [joinLines]

theorem joinLines_cons_cons (piece piece' : Text) (pieces : List Text) :
    joinLines (piece :: piece' :: pieces) = piece ++ '\n' :: joinLines (piece' :: pieces) := by
  rw [joinLines, List.intercalate_cons_cons, List.append_assoc, List.singleton_append]
  rfl

theorem joinLines_cons {pieces : List Text} (h : pieces ≠ []) (piece : Text) :
    joinLines (piece :: pieces) = piece ++ '\n' :: joinLines pieces := by
  cases pieces with
  | nil => exact (h rfl).elim
  | cons piece' pieces => exact joinLines_cons_cons piece piece' pieces

theorem joinLines_cons_append (a piece : Text) (pieces : List Text) :
    joinLines ((a ++ piece) :: pieces) = a ++ joinLines (piece :: pieces) := by
  cases pieces with
  | nil => rw [joinLines_singleton, joinLines_singleton]
  | cons piece' pieces => rw [joinLines_cons_cons, joinLines_cons_cons, List.append_assoc]

theorem joinLines_append {l l' : List Text} (h : l ≠ []) (h' : l' ≠ []) :
    joinLines (l ++ l') = joinLines l ++ '\n' :: joinLines l' := by
  induction l with
  | nil => exact (h rfl).elim
  | cons piece l ih =>
    cases l with
    | nil => rw [List.singleton_append, joinLines_cons h', joinLines_singleton]
    | cons piece' l =>
      rw [List.cons_append, joinLines_cons (by simp), ih (List.cons_ne_nil _ _),
        joinLines_cons_cons, List.append_assoc, List.cons_append]

/-- Pieces that are joined themselves. -/
theorem joinLines_flatten {ls : List (List Text)} (h : ∀ l ∈ ls, l ≠ []) :
    joinLines ls.flatten = joinLines (ls.map joinLines) := by
  induction ls with
  | nil => rfl
  | cons l ls ih =>
    have hl := h l List.mem_cons_self
    have ih := ih fun l' hl' => h l' (List.mem_cons_of_mem _ hl')
    cases ls with
    | nil => simp
    | cons l' ls =>
      have hne : (l' :: ls).flatten ≠ [] := by
        simp [h l' (List.mem_cons_of_mem _ List.mem_cons_self)]
      rw [List.flatten_cons, joinLines_append hl hne, ih]
      exact (joinLines_cons (List.cons_ne_nil _ _) _).symm

/-- Pieces in the middle that are joined themselves. -/
theorem joinLines_regroup {α : Type} {l l' : List Text} {f : α → List Text} {items : List α}
    (h : ∀ item ∈ items, f item ≠ []) : joinLines (l ++ items.flatMap f ++ l') =
      joinLines (l ++ items.map (fun item => joinLines (f item)) ++ l') := by
  have hsingle : ∀ l : List Text, (l.map fun piece => [piece]).flatten = l := fun l => by
    induction l with
    | nil => rfl
    | cons piece l ih => rw [List.map_cons, List.flatten_cons, ih, List.singleton_append]
  have hjoin : ∀ l : List Text, (l.map fun piece => [piece]).map joinLines = l := fun l => by
    simp [Function.comp_def]
  have hne : ∀ pieces ∈ (l.map fun piece => [piece]) ++ items.map f ++
      l'.map fun piece => [piece], pieces ≠ [] := by
    intro pieces hpieces
    simp only [List.mem_append, List.mem_map] at hpieces
    rcases hpieces with (⟨piece, -, rfl⟩ | ⟨item, hitem, rfl⟩) | ⟨piece, -, rfl⟩
    · exact List.cons_ne_nil _ _
    · exact h item hitem
    · exact List.cons_ne_nil _ _
  have hflatten := joinLines_flatten hne
  rw [List.flatten_append, List.flatten_append, hsingle, hsingle, ← List.flatMap_def,
    List.map_append, List.map_append, hjoin, hjoin, List.map_map] at hflatten
  exact hflatten

theorem lines_joinLines (pieces : List Text) :
    lines (joinLines pieces) = pieces.flatMap lines := by
  induction pieces with
  | nil => rfl
  | cons piece pieces ih =>
    cases pieces with
    | nil => simp
    | cons piece' pieces =>
      rw [joinLines_cons_cons, lines_append_cons rfl, ih]
      rfl

/-- What holds no `c` stands in pieces joined by `c` exactly where it stands in one of them. -/
theorem infix_intercalate {c : Char} {e : Text} (hne : e ≠ []) (he : c ∉ e) {pieces : List Text} :
    e <:+: [c].intercalate pieces ↔ ∃ piece ∈ pieces, e <:+: piece := by
  induction pieces with
  | nil => simpa using hne
  | cons piece pieces ih =>
    cases pieces with
    | nil => simp
    | cons piece' pieces =>
      rw [List.intercalate_cons_cons, List.append_assoc, List.singleton_append,
        List.exists_mem_cons_iff, ← ih]
      constructor
      · exact infix_of_infix_append he
      · rintro (h | h)
        · exact h.trans (List.prefix_append _ _).isInfix
        · exact h.trans ((List.suffix_cons _ _).trans (List.suffix_append _ _)).isInfix

theorem infix_joinLines {e : Text} (hne : e ≠ []) (he : '\n' ∉ e) {pieces : List Text} :
    e <:+: joinLines pieces ↔ ∃ piece ∈ pieces, e <:+: piece := infix_intercalate hne he

theorem mem_joinLines {pieces : List Text} {piece : Text} {c : Char} (hpiece : piece ∈ pieces)
    (hc : c ∈ piece) : c ∈ joinLines pieces := by
  induction pieces with
  | nil => cases hpiece
  | cons first pieces ih =>
    cases pieces with
    | nil =>
      rw [List.mem_singleton] at hpiece
      rw [joinLines_singleton, ← hpiece]
      exact hc
    | cons second pieces =>
      rw [joinLines_cons_cons, List.mem_append, List.mem_cons]
      rcases List.mem_cons.1 hpiece with rfl | hpiece
      · exact .inl hc
      · exact .inr (.inr (ih hpiece))

/-! ## Cuts -/

/-- The pieces of the first `n` characters, the last of them cut. -/
def piecesBefore : (n : ℕ) → List Text → List Text
  | _, [] => []
  | n, [piece] => [piece.take n]
  | n, piece :: pieces =>
    if n ≤ piece.length then [piece.take n]
    else piece :: piecesBefore (n - piece.length - 1) pieces

/-- The pieces of what follows the first `n` characters, the first of them cut. -/
def piecesAfter : (n : ℕ) → List Text → List Text
  | _, [] => []
  | n, [piece] => [piece.drop n]
  | n, piece :: pieces =>
    if n ≤ piece.length then piece.drop n :: pieces
    else piecesAfter (n - piece.length - 1) pieces

theorem piecesBefore_ne_nil {pieces : List Text} (h : pieces ≠ []) (n : ℕ) :
    piecesBefore n pieces ≠ [] := by
  fun_cases piecesBefore n pieces <;> simp_all

theorem piecesAfter_ne_nil {pieces : List Text} (h : pieces ≠ []) (n : ℕ) :
    piecesAfter n pieces ≠ [] := by
  induction pieces generalizing n with
  | nil => exact (h rfl).elim
  | cons piece pieces ih =>
    cases pieces with
    | nil => exact List.cons_ne_nil _ _
    | cons piece' pieces =>
      rw [piecesAfter]
      split
      · exact List.cons_ne_nil _ _
      · exact ih (List.cons_ne_nil _ _) _
      · exact nofun

theorem joinLines_before (n : ℕ) (pieces : List Text) :
    joinLines (piecesBefore n pieces) = (joinLines pieces).take n := by
  induction pieces generalizing n with
  | nil => simp [piecesBefore]
  | cons piece pieces ih =>
    cases pieces with
    | nil => simp [piecesBefore]
    | cons piece' pieces =>
      rw [joinLines_cons_cons, List.take_append]
      by_cases hn : n ≤ piece.length
      · rw [piecesBefore, if_pos hn, joinLines_singleton, Nat.sub_eq_zero_of_le hn, List.take_zero,
          List.append_nil]
        exact nofun
      · have hpiece : piece.take n = piece := List.take_of_length_le (by omega)
        have hrest : n - piece.length = (n - piece.length - 1) + 1 := by omega
        rw [piecesBefore, if_neg hn, joinLines_cons (piecesBefore_ne_nil (by simp) _), ih, hpiece,
          hrest, List.take_succ_cons, Nat.add_sub_cancel]
        exact nofun

theorem joinLines_after (n : ℕ) (pieces : List Text) :
    joinLines (piecesAfter n pieces) = (joinLines pieces).drop n := by
  induction pieces generalizing n with
  | nil => simp [piecesAfter]
  | cons piece pieces ih =>
    cases pieces with
    | nil => simp [piecesAfter]
    | cons piece' pieces =>
      rw [joinLines_cons_cons, List.drop_append]
      by_cases hn : n ≤ piece.length
      · rw [piecesAfter, if_pos hn, joinLines_cons_cons, Nat.sub_eq_zero_of_le hn, List.drop_zero]
        exact nofun
      · have hpiece : piece.drop n = [] := List.drop_of_length_le (by omega)
        have hrest : n - piece.length = (n - piece.length - 1) + 1 := by omega
        rw [piecesAfter, if_neg hn, ih, hpiece, List.nil_append, hrest, List.drop_succ_cons,
          Nat.add_sub_cancel]
        exact nofun

/-- A piece before the cut is the beginning of one. -/
theorem prefix_of_mem_before {n : ℕ} {pieces : List Text} {piece : Text}
    (h : piece ∈ piecesBefore n pieces) : ∃ whole ∈ pieces, piece <+: whole := by
  induction pieces generalizing n with
  | nil => simp [piecesBefore] at h
  | cons first pieces ih =>
    cases pieces with
    | nil =>
      rw [piecesBefore, List.mem_singleton] at h
      exact ⟨first, List.mem_cons_self, h ▸ List.take_prefix _ _⟩
    | cons second pieces =>
      rw [piecesBefore] at h
      · split at h
        · rw [List.mem_singleton] at h
          exact ⟨first, List.mem_cons_self, h ▸ List.take_prefix _ _⟩
        · rcases List.mem_cons.1 h with rfl | h
          · exact ⟨piece, List.mem_cons_self, List.prefix_rfl⟩
          · obtain ⟨whole, hwhole, hbegins⟩ := ih h
            exact ⟨whole, List.mem_cons_of_mem _ hwhole, hbegins⟩
      · exact nofun

/-- The pieces before the cut one are whole. -/
theorem mem_of_mem_dropLast_before {n : ℕ} {pieces : List Text} {piece : Text}
    (h : piece ∈ (piecesBefore n pieces).dropLast) : piece ∈ pieces := by
  induction pieces generalizing n with
  | nil => simp [piecesBefore] at h
  | cons first pieces ih =>
    cases pieces with
    | nil => simp [piecesBefore] at h
    | cons second pieces =>
      rw [piecesBefore] at h
      · split at h
        · cases h
        · rw [List.dropLast_cons_of_ne_nil (piecesBefore_ne_nil (List.cons_ne_nil _ _) _)] at h
          rcases List.mem_cons.1 h with rfl | h
          · exact List.mem_cons_self
          · exact List.mem_cons_of_mem _ (ih h)
      · exact nofun

/-- The first piece after the cut is the end of one. -/
theorem suffix_of_mem_head?_after {n : ℕ} {pieces : List Text} {piece : Text}
    (h : piece ∈ (piecesAfter n pieces).head?) : ∃ whole ∈ pieces, piece <:+ whole := by
  induction pieces generalizing n with
  | nil => cases h
  | cons first pieces ih =>
    cases pieces with
    | nil =>
      obtain rfl := Option.some.inj h
      exact ⟨first, List.mem_cons_self, List.drop_suffix _ _⟩
    | cons second pieces =>
      rw [piecesAfter] at h
      · split at h
        · obtain rfl := Option.some.inj h
          exact ⟨first, List.mem_cons_self, List.drop_suffix _ _⟩
        · obtain ⟨whole, hwhole, hends⟩ := ih h
          exact ⟨whole, List.mem_cons_of_mem _ hwhole, hends⟩
      · exact nofun

/-- The pieces after the cut one are whole. -/
theorem mem_of_mem_tail_after {n : ℕ} {pieces : List Text} {piece : Text}
    (h : piece ∈ (piecesAfter n pieces).tail) : piece ∈ pieces := by
  induction pieces generalizing n with
  | nil => simp [piecesAfter] at h
  | cons first pieces ih =>
    cases pieces with
    | nil => simp [piecesAfter] at h
    | cons second pieces =>
      rw [piecesAfter] at h
      · split at h
        · exact List.mem_cons_of_mem _ h
        · exact List.mem_cons_of_mem _ (ih h)
      · exact nofun

end ResidentCrm.Text
