import ResidentCrm.Logs.Retrieval

/-!
# The lines around a match

What `ContextWindowSelector` emits of a sequence of lines: those that match, those within `after`
lines after a match and those within `before` lines before one, each once and in order
(`run_eq_around`). The lines held are those that may still become leading context, each with the
number of lines that may come before the match that asks for it (`pending`).
-/

namespace ResidentCrm.Logs

universe u

/-- What a selector emits of some lines, one after the other. -/
def Selector.run {σ : Type u} (selector : Selector σ) : σ → List Text → List (Text × Bool)
  | _, [] => []
  | s, line :: lines => (selector.feed s line).1 ++ selector.run (selector.feed s line).2 lines

/-- The state after some lines. -/
def Selector.after {σ : Type u} (selector : Selector σ) (s : σ) (lines : List Text) : σ :=
  lines.foldl (fun s line => (selector.feed s line).2) s

/-- `ContextWindowSelector(matcher, before, after)`. -/
def contextSelector (matcher : Text → Bool) (before after : ℤ) : Selector ContextWindow :=
  contextWindowSelector matcher before.toNat after.toNat

/-- `reset`, which leaves the sizes of the windows as they are. -/
def ContextWindow.reset (_ : ContextWindow) : ContextWindow := ⟨[], 0⟩

section

variable (matcher : Text → Bool) (before after : ℤ)

/-- The line at a place matches, or is near enough to one that does. -/
def Around (lines : List Text) (i : ℕ) : Prop :=
  ∃ j < lines.length, lines[j]?.any matcher = true ∧
    (i = j ∨ j < i ∧ (i : ℤ) ≤ j + after ∨ i < j ∧ (j : ℤ) ≤ i + before)

instance (lines : List Text) (i : ℕ) : Decidable (Around matcher before after lines i) := by
  unfold Around
  infer_instance

/-- The lines that match or are near one that does, each marked as it matches. -/
def around (lines : List Text) : List (Text × Bool) :=
  (List.range lines.length).filterMap fun i =>
    if Around matcher before after lines i then lines[i]?.map fun line => (line, matcher line)
    else none

/-- The same line by line, where `remaining` lines are trailing context already. -/
def aroundFrom (before after : ℕ) : (remaining : ℕ) → List Text → List (Text × Bool)
  | _, [] => []
  | remaining, line :: lines =>
    if matcher line then (line, true) :: aroundFrom before after after lines
    else if 0 < remaining then (line, false) :: aroundFrom before after (remaining - 1) lines
    else if (lines.take before).any matcher then (line, false) :: aroundFrom before after 0 lines
    else aroundFrom before after 0 lines

/-- What becomes leading context of the lines held: each has as many lines to go as it is young. -/
def pending (before : ℕ) : (held : List Text) → List Text → List (Text × Bool)
  | [], _ => []
  | line :: held, lines =>
    (if (lines.take (before - held.length)).any matcher then [(line, false)] else []) ++
      pending before held lines

end

section

variable {matcher : Text → Bool} {before after : ℕ}

/-! ## The selector line by line -/

theorem pending_nil (held : List Text) : pending matcher before held [] = [] := by
  induction held with
  | nil => rfl
  | cons line held ih => rw [pending, ih, List.take_nil, List.any_nil, if_neg (by decide)]; rfl

/-- A match makes leading context of all that is held. -/
theorem pending_match {held : List Text} (hheld : held.length ≤ before) {line : Text}
    (hline : matcher line = true) (lines : List Text) :
    pending matcher before held (line :: lines) = held.map (·, false) := by
  induction held with
  | nil => rfl
  | cons first held ih =>
    rw [List.length_cons] at hheld
    obtain ⟨k, hk⟩ := Nat.exists_eq_add_of_lt hheld
    have hbudget : before - held.length = k + 1 := by omega
    rw [pending, ih (by omega), hbudget, List.take_succ_cons, List.any_cons, hline, Bool.true_or,
      if_pos rfl]
    rfl

/-- A line that does not match is held itself. -/
theorem pending_quiet {held : List Text} {line : Text} (hline : matcher line = false)
    (lines : List Text) :
    pending matcher before (held ++ [line]) lines =
      pending matcher before held (line :: lines) ++
        if (lines.take before).any matcher then [(line, false)] else [] := by
  induction held with
  | nil =>
    rw [List.nil_append, pending, pending, pending, List.length_nil, Nat.sub_zero,
      List.append_nil, List.nil_append]
  | cons first held ih =>
    have hbudget : ((line :: lines).take (before - held.length)).any matcher =
        (lines.take (before - (held.length + 1))).any matcher := by
      rcases Nat.eq_zero_or_pos (before - held.length) with h | h
      · have h' : before - (held.length + 1) = 0 := by omega
        rw [h, h']
        rfl
      · have h' : before - held.length = before - (held.length + 1) + 1 := by omega
        rw [h', List.take_succ_cons, List.any_cons, hline, Bool.false_or]
    rw [List.cons_append, pending, pending, ih, List.append_assoc, hbudget, List.length_append,
      List.length_singleton]

/-- Of the lines held, those too old to be asked for are let go. -/
theorem pending_drop {held : List Text} (hheld : held.length ≤ before + 1) (lines : List Text) :
    pending matcher before (held.drop (held.length - before)) lines =
      pending matcher before held lines := by
  by_cases hlength : held.length ≤ before
  · rw [Nat.sub_eq_zero_of_le hlength, List.drop_zero]
  · cases held with
    | nil => exact absurd (Nat.zero_le _) hlength
    | cons line held =>
      have hfull : held.length = before := by
        rw [List.length_cons] at hlength hheld
        omega
      rw [List.length_cons, hfull, Nat.add_sub_cancel_left, List.drop_succ_cons, List.drop_zero,
        pending, hfull, Nat.sub_self]
      rfl

/-- **What is emitted** is what becomes leading context of the lines held, and what is around the
matches to come. -/
theorem run_eq_aroundFrom {held : List Text} {remaining : ℕ} (hheld : held.length ≤ before)
    (hidle : 0 < remaining → held = []) (lines : List Text) :
    (contextWindowSelector matcher before after).run ⟨held, remaining⟩ lines =
      pending matcher before held lines ++ aroundFrom matcher before after remaining lines := by
  induction lines generalizing held remaining with
  | nil =>
    rw [pending_nil]
    rfl
  | cons line lines ih =>
    cases hline : matcher line with
    | true =>
      have hfeed : (contextWindowSelector matcher before after).feed ⟨held, remaining⟩ line =
          (held.map (·, false) ++ [(line, true)], ⟨[], after⟩) := by
        simp only [contextWindowSelector, hline, if_true]
      rw [Selector.run, hfeed, ih (Nat.zero_le _) fun _ => rfl, pending_match hheld hline,
        aroundFrom, if_pos hline]
      simp only [pending, List.nil_append, List.append_assoc, List.singleton_append]
    | false =>
      by_cases hremaining : 0 < remaining
      · obtain rfl := hidle hremaining
        have hfeed : (contextWindowSelector matcher before after).feed ⟨[], remaining⟩ line =
            ([(line, false)], ⟨[], remaining - 1⟩) := by
          simp only [contextWindowSelector, hline, if_pos hremaining, if_neg Bool.false_ne_true]
        rw [Selector.run, hfeed, ih (Nat.zero_le _) fun _ => rfl, aroundFrom,
          if_neg (by rw [hline]; decide), if_pos hremaining]
        simp only [pending, List.nil_append, List.singleton_append]
      · have hheld' : (held ++ [line]).length ≤ before + 1 := by
          rw [List.length_append, List.length_singleton]
          omega
        have hfeed : (contextWindowSelector matcher before after).feed ⟨held, remaining⟩ line =
            ([], ⟨(held ++ [line]).drop ((held ++ [line]).length - before), 0⟩) := by
          simp only [contextWindowSelector, hline, if_neg hremaining, if_neg Bool.false_ne_true]
        have hdrop : ((held ++ [line]).drop ((held ++ [line]).length - before)).length ≤ before := by
          rw [List.length_drop]
          omega
        have hfrom : aroundFrom matcher before after remaining (line :: lines) =
            (if (lines.take before).any matcher then [(line, false)] else []) ++
              aroundFrom matcher before after 0 lines := by
          rw [aroundFrom, hline, if_neg Bool.false_ne_true, if_neg hremaining]
          split <;> rfl
        rw [Selector.run, hfeed, ih hdrop fun h => absurd h (lt_irrefl 0), pending_drop hheld',
          pending_quiet hline, hfrom, List.nil_append, List.append_assoc]

/-! ## Places -/

/-- A match after the first place is a match of what follows. -/
theorem around_cons {line : Text} {lines : List Text} {i : ℕ} :
    Around matcher before after (line :: lines) i ↔
      matcher line = true ∧ i ≤ after ∨
        ∃ j < lines.length, lines[j]?.any matcher = true ∧
          (i = j + 1 ∨ j + 1 < i ∧ i ≤ j + 1 + after ∨ i < j + 1 ∧ j + 1 ≤ i + before) := by
  constructor
  · rintro ⟨j, hj, hmatch, hnear⟩
    cases j with
    | zero =>
      refine .inl ⟨hmatch, ?_⟩
      omega
    | succ j =>
      refine .inr ⟨j, Nat.lt_of_succ_lt_succ hj, hmatch, ?_⟩
      omega
  · rintro (⟨hmatch, hnear⟩ | ⟨j, hj, hmatch, hnear⟩)
    · refine ⟨0, Nat.succ_pos _, hmatch, ?_⟩
      omega
    · refine ⟨j + 1, Nat.succ_lt_succ hj, hmatch, ?_⟩
      omega

theorem any_take_iff {lines : List Text} {n : ℕ} :
    (lines.take n).any matcher = true ↔
      ∃ j < lines.length, lines[j]?.any matcher = true ∧ j < n := by
  rw [List.any_eq_true]
  constructor
  · rintro ⟨line, hline, hmatch⟩
    obtain ⟨j, hj, rfl⟩ := List.mem_take_iff_getElem.1 hline
    refine ⟨j, (Nat.lt_min.1 hj).2, ?_, (Nat.lt_min.1 hj).1⟩
    rw [List.getElem?_eq_getElem (Nat.lt_min.1 hj).2]
    exact hmatch
  · rintro ⟨j, hj, hmatch, hn⟩
    rw [List.getElem?_eq_getElem hj] at hmatch
    exact ⟨lines[j], List.mem_take_iff_getElem.2 ⟨j, Nat.lt_min.2 ⟨hn, hj⟩, rfl⟩, hmatch⟩

theorem around_zero {line : Text} {lines : List Text} :
    Around matcher before after (line :: lines) 0 ↔
      matcher line = true ∨ (lines.take before).any matcher = true := by
  rw [around_cons, any_take_iff]
  refine or_congr (and_iff_left (Nat.zero_le _)) (exists_congr fun j => ?_)
  refine and_congr_right fun _ => and_congr_right fun _ => ?_
  omega

/-- How near a match is, one line later. -/
theorem around_succ {line : Text} {lines : List Text} {remaining i : ℕ}
    (hremaining : remaining ≤ after) :
    i + 1 < remaining ∨ Around matcher before after (line :: lines) (i + 1) ↔
      i < (if matcher line then after else remaining - 1) ∨ Around matcher before after lines i := by
  have hlater : (∃ j < lines.length, lines[j]?.any matcher = true ∧
      (i + 1 = j + 1 ∨ j + 1 < i + 1 ∧ i + 1 ≤ j + 1 + after ∨
        i + 1 < j + 1 ∧ j + 1 ≤ i + 1 + before)) ↔ Around matcher before after lines i := by
    refine exists_congr fun j => and_congr_right fun _ => and_congr_right fun _ => ?_
    omega
  rw [around_cons, hlater, ← or_assoc]
  refine or_congr_left' fun _ => ?_
  cases matcher line with
  | true =>
    simp only [if_true, true_and]
    omega
  | false =>
    simp only [Bool.false_eq_true, if_false, false_and, or_false]
    omega

/-- **Line by line and place by place** the same is emitted. -/
theorem aroundFrom_eq {remaining : ℕ} (hremaining : remaining ≤ after) (lines : List Text) :
    aroundFrom matcher before after remaining lines =
      (List.range lines.length).filterMap fun i =>
        if i < remaining ∨ Around matcher before after lines i then
          lines[i]?.map fun line => (line, matcher line) else none := by
  induction lines generalizing remaining with
  | nil => rfl
  | cons line lines ih =>
    have hlater : (List.range lines.length).filterMap (fun i =>
        if i + 1 < remaining ∨ Around matcher before after (line :: lines) (i + 1) then
          (line :: lines)[i + 1]?.map fun line => (line, matcher line) else none) =
        aroundFrom matcher before after (if matcher line then after else remaining - 1) lines := by
      rw [ih (by split <;> omega)]
      simp only [around_succ hremaining, List.getElem?_cons_succ]
    rw [List.length_cons, List.range_succ_eq_map, List.filterMap_cons, List.filterMap_map]
    simp only [Function.comp_def, hlater, around_zero, List.getElem?_cons_zero, Option.map_some]
    rw [aroundFrom]
    cases hline : matcher line with
    | true => simp only [if_true, true_or, or_true]
    | false =>
      by_cases hpos : 0 < remaining
      · simp only [hpos, if_true, true_or, Bool.false_eq_true, if_false]
      · have hzero : remaining - 1 = 0 := by omega
        simp only [hpos, false_or, Bool.false_eq_true, if_false, hzero]
        split
        · simp only [*]
        · simp only [*]

theorem around_toNat {before after : ℤ} {lines : List Text} {i : ℕ} :
    Around matcher before after lines i ↔ Around matcher before.toNat after.toNat lines i := by
  refine exists_congr fun j => and_congr_right fun _ => and_congr_right fun _ => ?_
  omega

/-- **The selector emits the lines around the matches**, whatever it was fed before it was reset. -/
theorem run_eq_around (matcher : Text → Bool) (before after : ℤ) (lines : List Text) :
    (contextSelector matcher before after).run (contextSelector matcher before after).fresh lines =
        around matcher before after lines ∧
      ∀ earlier, (contextSelector matcher before after).run
          ((contextSelector matcher before after).after
            (contextSelector matcher before after).fresh earlier).reset lines =
        around matcher before after lines := by
  have hfresh : (contextSelector matcher before after).run ⟨[], 0⟩ lines =
      around matcher before after lines := by
    rw [contextSelector, run_eq_aroundFrom (Nat.zero_le _) fun _ => rfl, pending, List.nil_append,
      aroundFrom_eq (Nat.zero_le _)]
    simp only [around, Nat.not_lt_zero, false_or, ← around_toNat]
  exact ⟨hfresh, fun _ => hfresh⟩

end

end ResidentCrm.Logs
