import ResidentCrm.Logs.Reducer

/-!
# What the window states of what it folds

`collapse_error_window` counts a template over all the records and folds only the quiet ones. What
it emits is in order, evidence included; what its markers state is what is missing exactly when no
folded template also holds evidence.
-/

namespace ResidentCrm.Logs

universe u

/-- The count that a marker states. -/
def statedCount (note : Text) : ℕ := Nat.ofDigitChars 10 ((note.drop 2).takeWhile Char.isDigit) 0

def WindowEntry.stated (entry : WindowEntry) : ℕ := (entry.note.map statedCount).getD 0

/-- A record is of the kind that is folded. -/
def folds (counts : ℕ → ℕ) (threshold : ℤ) (entry : TraceRecord × ℕ) : Bool :=
  !entry.1.isEvidence && decide (threshold ≤ counts entry.2)

/-- At this place stands the first folded record of its template. -/
def FirstFolded (counts : ℕ → ℕ) (threshold : ℤ) (tagged : List (TraceRecord × ℕ)) (i : ℕ) : Prop :=
  ∃ entry, tagged[i]? = some entry ∧ folds counts threshold entry = true ∧
    ∀ j < i, ∀ earlier, tagged[j]? = some earlier → folds counts threshold earlier = true →
      earlier.2 ≠ entry.2

/-- What is emitted at the place of an input record. -/
def Emitted (counts : ℕ → ℕ) (threshold : ℤ) (tagged : List (TraceRecord × ℕ)) (i : ℕ)
    (entry : WindowEntry) : Prop :=
  (∃ tid, tagged[i]? = some (entry.record, tid)) ∧
    (entry.note.isSome = true → FirstFolded counts threshold tagged i)

/-- A window hides nothing of its records that it does not state. -/
structure HidesNothing (counts : ℕ → ℕ) (threshold : ℤ) (tagged : List (TraceRecord × ℕ))
    (window : List WindowEntry) (kept : List ℕ) : Prop where
  order : kept.Pairwise (· < ·)
  emitted : List.Forall₂ (Emitted counts threshold tagged) kept window
  evidence : ∀ i entry, tagged[i]? = some entry → entry.1.isEvidence = true → i ∈ kept
  account : window.length + (window.map WindowEntry.stated).sum = tagged.length

/-- No template that is folded holds evidence too. -/
def Unmixed (counts : ℕ → ℕ) (threshold : ℤ) (tagged : List (TraceRecord × ℕ)) : Prop :=
  ∀ quiet ∈ tagged, folds counts threshold quiet = true →
    ∀ entry ∈ tagged, entry.2 = quiet.2 → entry.1.isEvidence = false

/-! ## Markers -/

theorem statedCount_marker (n : ℕ) {rest : Text} (hrest : rest.takeWhile Char.isDigit = []) :
    statedCount ("(+".toList ++ (Text.ofNat n ++ rest)) = n := by
  have hdigits : ∀ c ∈ Text.ofNat n, c.isDigit = true := fun c =>
    Nat.isDigit_of_mem_toDigits (by decide) (by decide)
  change Nat.ofDigitChars 10 ((Text.ofNat n ++ rest).takeWhile Char.isDigit) 0 = n
  rw [List.takeWhile_append_of_pos hdigits, hrest, List.append_nil]
  exact Nat.ofDigitChars_ten_toDigits

section

variable {counts : ℕ → ℕ} {lastTs : ℕ → Text} {threshold : ℤ}

theorem folds_iff {record : TraceRecord} {tid : ℕ} :
    folds counts threshold (record, tid) = true ↔
      ¬(record.isEvidence = true ∨ (counts tid : ℤ) < threshold) := by
  simp [folds, not_or]

variable (counts lastTs threshold) in
/-- What the loop does with one record. -/
theorem foldRepeats_cons (seen : List ℕ) (record : TraceRecord) (tid : ℕ)
    (l : List (TraceRecord × ℕ)) :
    (folds counts threshold (record, tid) = false ∧
        foldRepeats counts lastTs threshold seen ((record, tid) :: l) =
          { record } :: foldRepeats counts lastTs threshold seen l) ∨
      (folds counts threshold (record, tid) = true ∧ tid ∉ seen ∧ ∃ note,
        statedCount note = counts tid - 1 ∧
        foldRepeats counts lastTs threshold seen ((record, tid) :: l) =
          ⟨record, some note⟩ :: foldRepeats counts lastTs threshold (tid :: seen) l) ∨
      (folds counts threshold (record, tid) = true ∧ tid ∈ seen ∧
        foldRepeats counts lastTs threshold seen ((record, tid) :: l) =
          foldRepeats counts lastTs threshold seen l) := by
  rw [foldRepeats]
  by_cases hkeep : record.isEvidence = true ∨ (counts tid : ℤ) < threshold
  · exact .inl ⟨by rw [← Bool.not_eq_true, folds_iff, not_not]; exact hkeep, if_pos hkeep⟩
  · have hfolds : folds counts threshold (record, tid) = true := folds_iff.2 hkeep
    rw [if_neg hkeep]
    by_cases hseen : tid ∈ seen
    · exact .inr (.inr ⟨hfolds, hseen, if_neg (not_not.2 hseen)⟩)
    · refine .inr (.inl ⟨hfolds, hseen, _, ?_, if_pos hseen⟩)
      rw [List.append_assoc, List.append_assoc, List.append_assoc]
      exact statedCount_marker _ rfl

/-! ## Places -/

/-- The templates that have their marker are those with a folded record before this place. -/
def Marked (counts : ℕ → ℕ) (threshold : ℤ) (earlier : List (TraceRecord × ℕ)) (seen : List ℕ) :
    Prop :=
  ∀ tid, tid ∈ seen ↔ ∃ entry ∈ earlier, folds counts threshold entry = true ∧ entry.2 = tid

theorem Marked.skip {earlier : List (TraceRecord × ℕ)} {seen : List ℕ}
    (h : Marked counts threshold earlier seen) (entry : TraceRecord × ℕ)
    (hentry : folds counts threshold entry = true → entry.2 ∈ seen) :
    Marked counts threshold (earlier ++ [entry]) seen := by
  intro tid
  constructor
  · intro htid
    obtain ⟨e, he, hfolds⟩ := (h tid).1 htid
    exact ⟨e, List.mem_append_left _ he, hfolds⟩
  · rintro ⟨e, he, hfolds, rfl⟩
    rcases List.mem_append.1 he with he | he
    · exact (h _).2 ⟨e, he, hfolds, rfl⟩
    · rw [List.mem_singleton] at he
      subst he
      exact hentry hfolds

theorem Marked.mark {earlier : List (TraceRecord × ℕ)} {seen : List ℕ} {entry : TraceRecord × ℕ}
    (h : Marked counts threshold earlier seen) (hfolds : folds counts threshold entry = true) :
    Marked counts threshold (earlier ++ [entry]) (entry.2 :: seen) := by
  intro tid
  rw [List.mem_cons, h tid]
  constructor
  · rintro (rfl | ⟨e, he, hfolds'⟩)
    · exact ⟨entry, by simp, hfolds, rfl⟩
    · exact ⟨e, List.mem_append_left _ he, hfolds'⟩
  · rintro ⟨e, he, hfolds', rfl⟩
    rcases List.mem_append.1 he with he | he
    · exact .inr ⟨e, he, hfolds', rfl⟩
    · rw [List.mem_singleton] at he
      exact .inl (by rw [he])

/-- A template without a marker has its first folded record here. -/
theorem Marked.firstFolded {earlier l : List (TraceRecord × ℕ)} {seen : List ℕ}
    {entry : TraceRecord × ℕ} (h : Marked counts threshold earlier seen)
    (hfolds : folds counts threshold entry = true) (hseen : entry.2 ∉ seen) :
    FirstFolded counts threshold (earlier ++ entry :: l) earlier.length := by
  refine ⟨entry, by simp, hfolds, fun j hj e he hfolds' heq => hseen ?_⟩
  rw [List.getElem?_append_left hj] at he
  exact (h _).2 ⟨e, List.mem_of_getElem? he, hfolds', heq⟩

/-- Where the rest of the window stood, from any place on. -/
structure Placed (counts : ℕ → ℕ) (threshold : ℤ) (earlier l : List (TraceRecord × ℕ))
    (window : List WindowEntry) (kept : List ℕ) : Prop where
  order : kept.Pairwise (· < ·)
  here : ∀ i ∈ kept, earlier.length ≤ i
  emitted : List.Forall₂ (Emitted counts threshold (earlier ++ l)) kept window
  evidence : ∀ i entry, l[i]? = some entry → entry.1.isEvidence = true → earlier.length + i ∈ kept

namespace Placed

variable {earlier l : List (TraceRecord × ℕ)} {entry : TraceRecord × ℕ} {window : List WindowEntry}
  {kept : List ℕ}

theorem keep (h : Placed counts threshold (earlier ++ [entry]) l window kept) {e : WindowEntry}
    (he : Emitted counts threshold (earlier ++ entry :: l) earlier.length e) :
    Placed counts threshold earlier (entry :: l) (e :: window) (earlier.length :: kept) where
  order := .cons (fun i hi => Nat.lt_of_succ_le (by simpa using h.here i hi)) h.order
  here i hi := by
    rcases List.mem_cons.1 hi with rfl | hi
    · exact le_rfl
    · exact Nat.le_of_succ_le (by simpa using h.here i hi)
  emitted := .cons he (by simpa using h.emitted)
  evidence i e hi hev := by
    cases i with
    | zero => exact List.mem_cons_self
    | succ i =>
      have hlater := h.evidence i e hi hev
      rw [List.length_append, List.length_singleton, Nat.add_right_comm] at hlater
      exact List.mem_cons_of_mem _ hlater

theorem drop (h : Placed counts threshold (earlier ++ [entry]) l window kept)
    (hquiet : entry.1.isEvidence = false) :
    Placed counts threshold earlier (entry :: l) window kept where
  order := h.order
  here i hi := Nat.le_of_succ_le (by simpa using h.here i hi)
  emitted := by simpa using h.emitted
  evidence i e hi hev := by
    cases i with
    | zero =>
      obtain rfl : entry = e := by simpa using hi
      exact absurd hev (by simp [hquiet])
    | succ i =>
      have hlater := h.evidence i e hi hev
      rwa [List.length_append, List.length_singleton, Nat.add_right_comm] at hlater

end Placed

theorem quiet_of_folds {entry : TraceRecord × ℕ} (h : folds counts threshold entry = true) :
    entry.1.isEvidence = false := by
  rw [folds, Bool.and_eq_true, Bool.not_eq_true'] at h
  exact h.1

theorem frequent_of_folds {entry : TraceRecord × ℕ} (h : folds counts threshold entry = true) :
    threshold ≤ counts entry.2 := by
  rw [folds, Bool.and_eq_true, decide_eq_true_eq] at h
  exact h.2

variable (lastTs) in
theorem foldRepeats_placed {earlier : List (TraceRecord × ℕ)} {seen : List ℕ}
    (h : Marked counts threshold earlier seen) (l : List (TraceRecord × ℕ)) :
    ∃ kept, Placed counts threshold earlier l (foldRepeats counts lastTs threshold seen l) kept := by
  induction l generalizing earlier seen with
  | nil => exact ⟨[], .nil, by simp, .nil, by simp⟩
  | cons entry l ih =>
    obtain ⟨record, tid⟩ := entry
    have hhere : ∃ tid', (earlier ++ (record, tid) :: l)[earlier.length]? = some (record, tid') :=
      ⟨tid, by simp⟩
    obtain ⟨hfolds, heq⟩ | ⟨hfolds, hseen, note, -, heq⟩ | ⟨hfolds, hseen, heq⟩ :=
      foldRepeats_cons counts lastTs threshold seen record tid l
    · obtain ⟨kept, hkept⟩ := ih (h.skip (record, tid) fun hf => absurd hf (by simp [hfolds]))
      exact ⟨_, heq ▸ hkept.keep ⟨hhere, fun hnote => absurd hnote (by simp)⟩⟩
    · obtain ⟨kept, hkept⟩ := ih (h.mark hfolds)
      exact ⟨_, heq ▸ hkept.keep ⟨hhere, fun _ => h.firstFolded hfolds hseen⟩⟩
    · obtain ⟨kept, hkept⟩ := ih (h.skip (record, tid) fun _ => hseen)
      exact ⟨kept, heq ▸ hkept.drop (quiet_of_folds hfolds)⟩

/-! ## Counts -/

/-- The folded records of a template, the one beside its marker among them. -/
def foldedCount (counts : ℕ → ℕ) (threshold : ℤ) (l : List (TraceRecord × ℕ)) (tid : ℕ) : ℕ :=
  l.countP fun entry => folds counts threshold entry && entry.2 == tid

/-- The folded records of the templates that have their marker already. -/
def seenCount (counts : ℕ → ℕ) (threshold : ℤ) (seen : List ℕ) (l : List (TraceRecord × ℕ)) : ℕ :=
  l.countP fun entry => folds counts threshold entry && seen.contains entry.2

theorem foldedCount_cons_of_ne {entry : TraceRecord × ℕ} {l : List (TraceRecord × ℕ)} {tid : ℕ}
    (h : folds counts threshold entry = true → entry.2 ≠ tid) :
    foldedCount counts threshold (entry :: l) tid = foldedCount counts threshold l tid :=
  List.countP_cons_of_neg (by simpa using h)

theorem foldedCount_cons_self {entry : TraceRecord × ℕ} {l : List (TraceRecord × ℕ)}
    (h : folds counts threshold entry = true) :
    foldedCount counts threshold (entry :: l) entry.2 =
      foldedCount counts threshold l entry.2 + 1 :=
  List.countP_cons_of_pos (by simp [h])

theorem seenCount_cons {seen : List ℕ} {tid : ℕ} (h : tid ∉ seen) (l : List (TraceRecord × ℕ)) :
    seenCount counts threshold (tid :: seen) l =
      seenCount counts threshold seen l + foldedCount counts threshold l tid := by
  induction l with
  | nil => rfl
  | cons entry l ih =>
    simp only [seenCount, foldedCount, List.countP_cons, List.contains_cons] at ih ⊢
    rw [ih]
    by_cases htid : entry.2 = tid
    · have hnot : entry.2 ∉ seen := htid ▸ h
      simp only [htid, beq_self_eq_true, Bool.true_or, Bool.and_true, List.contains_eq_mem, h,
        decide_false, Bool.and_false, Bool.false_eq_true, if_false]
      omega
    · simp only [beq_eq_false_iff_ne.2 htid, Bool.false_or, Bool.and_false, Bool.false_eq_true,
        if_false]
      omega

/-- What the markers of the rest of a window are about. -/
structure Accounted (counts : ℕ → ℕ) (threshold : ℤ) (seen : List ℕ) (l : List (TraceRecord × ℕ))
    (window : List WindowEntry) (marks : List ℕ) : Prop where
  nodup : marks.Nodup
  mem_iff : ∀ tid, tid ∈ marks ↔
    tid ∉ seen ∧ ∃ entry ∈ l, folds counts threshold entry = true ∧ entry.2 = tid
  stated : (window.map WindowEntry.stated).sum = (marks.map (counts · - 1)).sum
  length : window.length + seenCount counts threshold seen l +
    (marks.map (foldedCount counts threshold l)).sum = l.length + marks.length

variable (counts lastTs threshold) in
theorem foldRepeats_accounted (seen : List ℕ) (l : List (TraceRecord × ℕ)) :
    ∃ marks, Accounted counts threshold seen l (foldRepeats counts lastTs threshold seen l)
      marks := by
  induction l generalizing seen with
  | nil => exact ⟨[], .nil, by simp, rfl, rfl⟩
  | cons entry l ih =>
    obtain ⟨record, tid⟩ := entry
    have hsame {marks : List ℕ} (hne : folds counts threshold (record, tid) = true → tid ∉ marks) :
        (marks.map (foldedCount counts threshold ((record, tid) :: l))).sum =
          (marks.map (foldedCount counts threshold l)).sum := by
      refine congrArg List.sum (List.map_congr_left fun tid' htid' => foldedCount_cons_of_ne ?_)
      rintro hfolds rfl
      exact hne hfolds htid'
    obtain ⟨hfolds, heq⟩ | ⟨hfolds, hseen, note, hnote, heq⟩ | ⟨hfolds, hseen, heq⟩ :=
      foldRepeats_cons counts lastTs threshold seen record tid l
    · obtain ⟨marks, hmarks⟩ := ih seen
      have hcount : seenCount counts threshold seen ((record, tid) :: l) =
          seenCount counts threshold seen l := List.countP_cons_of_neg (by simp [hfolds])
      refine ⟨marks, hmarks.nodup, fun tid' => ?_, ?_, ?_⟩
      · rw [hmarks.mem_iff]
        simp [hfolds]
      · rw [heq, List.map_cons, List.sum_cons, hmarks.stated]
        exact Nat.zero_add _
      · have hlength := hmarks.length
        rw [heq, hcount, hsame (by simp [hfolds]), List.length_cons, List.length_cons]
        omega
    · obtain ⟨marks, hmarks⟩ := ih (tid :: seen)
      have hnot : tid ∉ marks := fun hmem => ((hmarks.mem_iff tid).1 hmem).1 List.mem_cons_self
      have hcount : seenCount counts threshold seen ((record, tid) :: l) =
          seenCount counts threshold seen l := List.countP_cons_of_neg (by simp [hseen])
      refine ⟨tid :: marks, List.nodup_cons.2 ⟨hnot, hmarks.nodup⟩, fun tid' => ?_, ?_, ?_⟩
      · rw [List.mem_cons, hmarks.mem_iff]
        by_cases htid : tid' = tid
        · subst htid
          simp [hseen, hfolds]
        · have htid' : tid ≠ tid' := fun h => htid h.symm
          simp [htid, htid']
      · rw [heq, List.map_cons, List.sum_cons, hmarks.stated, List.map_cons, List.sum_cons, ← hnote]
        rfl
      · have hlength := hmarks.length
        have hself := foldedCount_cons_self (l := l) hfolds
        rw [seenCount_cons hseen] at hlength
        rw [heq, hcount, List.map_cons, List.sum_cons, hsame fun _ => hnot, hself, List.length_cons,
          List.length_cons, List.length_cons]
        dsimp only
        omega
    · obtain ⟨marks, hmarks⟩ := ih seen
      have hnot : tid ∉ marks := fun hmem => ((hmarks.mem_iff tid).1 hmem).1 hseen
      have hcount : seenCount counts threshold seen ((record, tid) :: l) =
          seenCount counts threshold seen l + 1 := List.countP_cons_of_pos (by simp [hfolds, hseen])
      refine ⟨marks, hmarks.nodup, fun tid' => ?_, by rw [heq, hmarks.stated], ?_⟩
      · rw [hmarks.mem_iff]
        refine and_congr_right fun hseen' => ?_
        have htid : tid ≠ tid' := by
          rintro rfl
          exact hseen' hseen
        simp [htid]
      · have hlength := hmarks.length
        rw [heq, hcount, hsame fun _ => hnot, List.length_cons]
        omega

theorem sum_sub_one {l : List ℕ} {g : ℕ → ℕ} (h : ∀ t ∈ l, 1 ≤ g t) :
    (l.map (g · - 1)).sum + l.length = (l.map g).sum := by
  induction l with
  | nil => rfl
  | cons t l ih =>
    have hhead := h t List.mem_cons_self
    have htail := ih fun t' ht' => h t' (List.mem_cons_of_mem _ ht')
    simp only [List.map_cons, List.sum_cons, List.length_cons]
    omega

theorem sum_le_sum {l : List ℕ} {f g : ℕ → ℕ} (h : ∀ t ∈ l, f t ≤ g t) :
    (l.map f).sum ≤ (l.map g).sum := by
  induction l with
  | nil => exact le_rfl
  | cons t l ih =>
    simp only [List.map_cons, List.sum_cons]
    exact Nat.add_le_add (h t List.mem_cons_self) (ih fun t' ht' => h t' (List.mem_cons_of_mem _ ht'))

theorem sum_eq_sum_iff {l : List ℕ} {f g : ℕ → ℕ} (h : ∀ t ∈ l, f t ≤ g t) :
    (l.map f).sum = (l.map g).sum ↔ ∀ t ∈ l, f t = g t := by
  induction l with
  | nil => simp
  | cons t l ih =>
    have hhead := h t List.mem_cons_self
    have hrest : ∀ t' ∈ l, f t' ≤ g t' := fun t' ht' => h t' (List.mem_cons_of_mem _ ht')
    have hle := sum_le_sum hrest
    simp only [List.map_cons, List.sum_cons, List.forall_mem_cons, ← ih hrest]
    omega

end

section

variable {threshold : ℤ} {tagged : List (TraceRecord × ℕ)}

theorem foldedCount_le (counts : ℕ → ℕ) (tid : ℕ) :
    foldedCount counts threshold tagged tid ≤ (tagged.map Prod.snd).count tid := by
  rw [List.count, List.countP_map]
  exact List.countP_mono_left fun entry _ h => (Bool.and_eq_true _ _ ▸ h).2

/-- A marker counts what is folded and, with it, the template's evidence. -/
theorem foldedCount_eq_iff {counts : ℕ → ℕ} {tid : ℕ} (hfrequent : threshold ≤ counts tid) :
    foldedCount counts threshold tagged tid = (tagged.map Prod.snd).count tid ↔
      ∀ entry ∈ tagged, entry.2 = tid → entry.1.isEvidence = false := by
  have htotal : (tagged.map Prod.snd).count tid = tagged.countP (·.2 == tid) := by
    rw [List.count, List.countP_map]
    rfl
  have hsplit := tagged.countP_eq_countP_filter_add (·.2 == tid) (folds counts threshold)
  rw [List.countP_filter, List.countP_filter] at hsplit
  have hfolded : foldedCount counts threshold tagged tid =
      tagged.countP fun entry => entry.2 == tid && folds counts threshold entry :=
    List.countP_congr fun entry _ => by rw [Bool.and_comm]
  calc foldedCount counts threshold tagged tid = (tagged.map Prod.snd).count tid
    _ ↔ tagged.countP (fun entry => entry.2 == tid && !folds counts threshold entry) = 0 := by
        omega
    _ ↔ ∀ entry ∈ tagged, entry.2 = tid → folds counts threshold entry = true := by
        rw [List.countP_eq_zero]
        simp
    _ ↔ ∀ entry ∈ tagged, entry.2 = tid → entry.1.isEvidence = false := by
        refine forall₃_congr fun entry _ htid => ?_
        rw [folds, htid, Bool.and_eq_true, Bool.not_eq_true', decide_eq_true hfrequent]
        exact and_iff_left rfl

/-- **The exact condition**: the records and the stated counts add up when no folded template holds
evidence too. -/
theorem account_iff {counts : ℕ → ℕ} (hcounts : ∀ tid, counts tid = (tagged.map Prod.snd).count tid)
    (lastTs : ℕ → Text) :
    (foldRepeats counts lastTs threshold [] tagged).length +
        ((foldRepeats counts lastTs threshold [] tagged).map WindowEntry.stated).sum =
          tagged.length ↔
      Unmixed counts threshold tagged := by
  obtain ⟨marks, hmarks⟩ := foldRepeats_accounted counts lastTs threshold [] tagged
  have hmark : ∀ tid, tid ∈ marks ↔
      ∃ entry ∈ tagged, folds counts threshold entry = true ∧ entry.2 = tid := by
    simpa using hmarks.mem_iff
  have hpos : ∀ tid ∈ marks, 1 ≤ counts tid := by
    intro tid htid
    obtain ⟨entry, hentry, -, rfl⟩ := (hmark tid).1 htid
    rw [hcounts]
    exact List.count_pos_iff.2 (List.mem_map_of_mem hentry)
  have hle : ∀ tid ∈ marks, foldedCount counts threshold tagged tid ≤ counts tid := fun tid _ =>
    hcounts tid ▸ foldedCount_le counts tid
  have hlength := hmarks.length
  have hnone : seenCount counts threshold [] tagged = 0 := by simp [seenCount]
  have hsum := sum_sub_one hpos
  rw [hmarks.stated]
  calc _ ↔ (marks.map (foldedCount counts threshold tagged)).sum = (marks.map counts).sum := by
        omega
    _ ↔ ∀ tid ∈ marks, foldedCount counts threshold tagged tid = counts tid := sum_eq_sum_iff hle
    _ ↔ Unmixed counts threshold tagged := ?_
  constructor
  · intro h quiet hquiet hfolds entry hentry htid
    have heq := h quiet.2 ((hmark _).2 ⟨quiet, hquiet, hfolds, rfl⟩)
    rw [hcounts] at heq
    exact (foldedCount_eq_iff (frequent_of_folds hfolds)).1 heq entry hentry htid
  · intro h tid htid
    obtain ⟨quiet, hquiet, hfolds, rfl⟩ := (hmark tid).1 htid
    rw [hcounts]
    exact (foldedCount_eq_iff (frequent_of_folds hfolds)).2 fun entry hentry htid =>
      h quiet hquiet hfolds entry hentry htid

end

section

universe v

variable {σ : Type v} (miner : TemplateMiner σ) (config : ReducerConfig) (logs : List TraceRecord)

theorem length_localTemplateIds (tree : σ) :
    (localTemplateIds miner tree logs).length = logs.length := by
  induction logs generalizing tree with
  | nil => rfl
  | cons entry logs ih => rw [localTemplateIds, List.length_cons, List.length_cons, ih]

/-- A window too short for a repeat is as the loop would leave it. -/
theorem foldRepeats_of_quiet {counts : ℕ → ℕ} {lastTs : ℕ → Text} {threshold : ℤ}
    (h : ∀ tid, (counts tid : ℤ) < threshold) (seen : List ℕ) (tagged : List (TraceRecord × ℕ)) :
    foldRepeats counts lastTs threshold seen tagged =
      tagged.map fun entry => { record := entry.1 } := by
  induction tagged with
  | nil => rfl
  | cons entry tagged ih =>
    rw [foldRepeats, if_pos (.inr (h _)), ih, List.map_cons]

theorem collapseErrorWindow_eq :
    ∃ lastTs, collapseErrorWindow miner config logs =
      foldRepeats ((localTemplateIds miner miner.fresh logs).count ·) lastTs
        config.errorRepeatThreshold [] (logs.zip (localTemplateIds miner miner.fresh logs)) := by
  have hlength := length_localTemplateIds miner logs miner.fresh
  unfold collapseErrorWindow
  split
  case isFalse => exact ⟨_, rfl⟩
  case isTrue hshort =>
    refine ⟨fun _ => [], ?_⟩
    rw [foldRepeats_of_quiet fun tid => ?_]
    · have hfst : (logs.zip (localTemplateIds miner miner.fresh logs)).map Prod.fst = logs :=
        List.map_fst_zip hlength.ge
      nth_rewrite 1 [← hfst]
      rw [List.map_map]
      rfl
    · have hcount : (localTemplateIds miner miner.fresh logs).count tid ≤ _ := List.count_le_length
      omega

/-- **What the window hides** it states, exactly when no template that is folded holds a warning or
an error too. -/
theorem hidesNothing_iff :
    (∃ kept, HidesNothing ((localTemplateIds miner miner.fresh logs).count ·)
        config.errorRepeatThreshold (logs.zip (localTemplateIds miner miner.fresh logs))
        (collapseErrorWindow miner config logs) kept) ↔
      Unmixed ((localTemplateIds miner miner.fresh logs).count ·) config.errorRepeatThreshold
        (logs.zip (localTemplateIds miner miner.fresh logs)) := by
  have hlength := length_localTemplateIds miner logs miner.fresh
  have hids : (logs.zip (localTemplateIds miner miner.fresh logs)).map Prod.snd =
      localTemplateIds miner miner.fresh logs := List.map_snd_zip hlength.le
  obtain ⟨lastTs, heq⟩ := collapseErrorWindow_eq miner config logs
  rw [heq, ← account_iff (fun tid => by rw [hids]) lastTs]
  constructor
  · rintro ⟨kept, h⟩
    exact h.account
  · intro haccount
    have hmarked : Marked ((localTemplateIds miner miner.fresh logs).count ·)
        config.errorRepeatThreshold [] [] := fun tid => by simp
    obtain ⟨kept, hkept⟩ :=
      foldRepeats_placed lastTs hmarked (logs.zip (localTemplateIds miner miner.fresh logs))
    exact ⟨kept, hkept.order, hkept.emitted, fun i entry hi hev => by
      simpa using hkept.evidence i entry hi hev, haccount⟩

end

/-- A miner that finds one template in everything. -/
def oneTemplate : TemplateMiner Unit where
  fresh := ()
  addLogMessage tree _ := (tree, 1)
  clusters _ := []

/-- A message of all levels. -/
def retried : List TraceRecord :=
  ["INFO", "INFO", "ERROR"].map fun level =>
    { timestamp := "2026-09-07T15:31:00+05:30".toList
      level := level.toList
      message := "Fetching index master data".toList
      appName := "indexer".toList }

/-- The error is shown and counted as one of the lines that are not. -/
theorem error_counted_as_folded :
    ¬∃ kept, HidesNothing ((localTemplateIds oneTemplate oneTemplate.fresh retried).count ·)
      ({} : ReducerConfig).errorRepeatThreshold
      (retried.zip (localTemplateIds oneTemplate oneTemplate.fresh retried))
      (collapseErrorWindow oneTemplate {} retried) kept := by
  rintro ⟨kept, h⟩
  exact absurd h.account (by decide)

end ResidentCrm.Logs
