import ResidentCrm.Lib.Json

/-!
# A prompt within its cap

`core/rejection_context.py`: how the sections of a prompt are put together (`render`) and how the
logs among them are trimmed, and nothing else, when the whole is longer than
`REJECTION_PROMPT_MAX_CHARS` (`fit`). The marker in the middle of trimmed logs states how many
characters it stands for, and its own length depends on that number; it is made room for with the
widest it can be.
-/

namespace ResidentCrm

/-- A greater number has no fewer digits. -/
theorem Text.length_ofNat_le {m n : ℕ} (h : m ≤ n) : (ofNat m).length ≤ (ofNat n).length := by
  have hpos : 0 < (ofNat n).length := Nat.length_toDigits_pos
  have hn : n < 10 ^ (ofNat n).length :=
    (Nat.length_toDigits_le_iff (by decide) hpos).1 (Nat.le_refl _)
  exact (Nat.length_toDigits_le_iff (by decide) hpos).2 (Nat.lt_of_le_of_lt h hn)

namespace RejectionContext

def MIN_LOG_ROOM : ℤ := 2000

def LOGS_OMITTED : Text :=
  ("The logs were omitted: the rest of this prompt already fills " ++
    "REJECTION_PROMPT_MAX_CHARS.").toList

/-- `_TRIM_MARKER.format(count)`. -/
def trimMarker (count : ℕ) : Text :=
  "\n\n... ".toList ++ Text.ofNat count ++
    (" characters omitted from the middle of this trace " ++
      "(REJECTION_PROMPT_MAX_CHARS) ...\n\n").toList

theorem length_between_le {s t : Text} (h : s.length ≤ t.length) (a b : Text) :
    (a ++ s ++ b).length ≤ (a ++ t ++ b).length := by
  simp only [List.length_append]
  omega

theorem length_trimMarker_le {m n : ℕ} (h : m ≤ n) :
    (trimMarker m).length ≤ (trimMarker n).length :=
  length_between_le (Text.length_ofNat_le h) _ _

/-- A section's label and its body. -/
abbrev Section := Text × Text

def renderSection (s : Section) : Text := "### ".toList ++ s.1 ++ '\n' :: s.2

/-- `_render`. -/
def render (sections : List Section) : Text :=
  "\n\n".toList.intercalate (sections.map renderSection)

/-- The sections with another body in one of them. -/
def withBody (sections : List Section) (index : Fin sections.length) (body : Text) : List Section :=
  sections.set index (sections[index].1, body)

/-- `_fit`, under whatever cap `prompt_max_chars` gives: the prompt, and whether the logs were
trimmed. -/
def fit (cap : ℕ) (sections : List Section) (logsIndex : Fin sections.length) (logsBody : Text) :
    Text × Bool :=
  let skeleton := render (sections.mapIdx fun index s =>
    (s.1, if index = logsIndex then [] else s.2))
  let room : ℤ := cap - skeleton.length
  let (final, trimmed) :=
    if logsBody.length ≤ room then (logsBody, false)
    else if MIN_LOG_ROOM ≤ room then
      let widest := trimMarker logsBody.length
      let keep := (max 0 ((room - widest.length) / 2)).toNat
      -- twice `keep` is at most the room, which the logs are longer than
      let marker := trimMarker (logsBody.length - 2 * keep)
      (if keep ≠ 0 then logsBody.take keep ++ marker ++ logsBody.drop (logsBody.length - keep)
        else LOGS_OMITTED, true)
    else (LOGS_OMITTED, true)
  (render (withBody sections logsIndex final), trimmed)

/-! ## Rendering -/

theorem render_cons {sections : List Section} (h : sections ≠ []) (s : Section) :
    render (s :: sections) = renderSection s ++ "\n\n".toList ++ render sections := by
  cases sections with
  | nil => exact (h rfl).elim
  | cons s' sections =>
    simp only [render, List.map_cons, List.intercalate_cons_cons, List.append_assoc]

theorem length_renderSection (label body : Text) :
    (renderSection (label, body)).length = (renderSection (label, [])).length + body.length := by
  simp only [renderSection, List.length_append, List.length_cons, List.length_nil]
  omega

/-- A body takes its own length. -/
theorem length_render_set (label body : Text) (sections : List Section) {index : ℕ}
    (h : index < sections.length) :
    (render (sections.set index (label, body))).length =
      (render (sections.set index (label, []))).length + body.length := by
  induction sections generalizing index with
  | nil => exact absurd h (Nat.not_lt_zero index)
  | cons s sections ih =>
    cases index with
    | zero =>
      simp only [List.set_cons_zero]
      by_cases hlast : sections = []
      · rw [hlast]
        simpa only [render, List.map_cons, List.map_nil, List.intercalate_singleton] using
          length_renderSection label body
      · rw [render_cons hlast, render_cons hlast]
        simp only [List.length_append, length_renderSection label body]
        omega
    | succ index =>
      have hindex : index < sections.length := Nat.lt_of_succ_lt_succ h
      have hne : ∀ s, sections.set index s ≠ [] := fun s => by
        rw [ne_eq, List.set_eq_nil_iff]
        exact List.ne_nil_of_length_pos (Nat.zero_lt_of_lt hindex)
      rw [List.set_cons_succ, List.set_cons_succ, render_cons (hne _), render_cons (hne _)]
      simp only [List.length_append, ih hindex]
      omega

variable {sections : List Section} {logsIndex : Fin sections.length} {logsBody : Text} {cap : ℕ}

theorem length_render_withBody (body : Text) :
    (render (withBody sections logsIndex body)).length =
      (render (withBody sections logsIndex [])).length + body.length :=
  length_render_set _ body sections logsIndex.2

/-- The skeleton is the prompt with an empty body for the logs. -/
theorem skeleton_eq (sections : List Section) (logsIndex : Fin sections.length) :
    (sections.mapIdx fun index s => (s.1, if index = logsIndex then [] else s.2)) =
      withBody sections logsIndex [] := by
  refine List.ext_getElem (by simp [withBody]) fun index h h' => ?_
  rw [List.getElem_mapIdx]
  simp only [withBody, List.getElem_set]
  by_cases heq : (logsIndex : ℕ) = index
  · subst heq
    simp
  · rw [if_neg heq, if_neg (Ne.symm heq)]

/-! ## Trimming -/

/-- Logs trimmed: a head and a tail of one length, and between them the marker of the middle. -/
def Trimmed (logs final : Text) : Prop :=
  ∃ head middle tail, logs = head ++ middle ++ tail ∧ head.length = tail.length ∧
    head ≠ [] ∧ middle ≠ [] ∧ final = head ++ trimMarker middle.length ++ tail

theorem trimmed_of_keep {logs : Text} {keep : ℕ} (hkeep : keep ≠ 0) (h : 2 * keep < logs.length) :
    Trimmed logs (logs.take keep ++ trimMarker (logs.length - 2 * keep) ++
      logs.drop (logs.length - keep)) := by
  have hmiddle := Text.length_middle logs keep
  refine ⟨logs.take keep, (logs.drop keep).take (logs.length - 2 * keep),
    logs.drop (logs.length - keep), (Text.take_middle_drop h.le).symm, ?_, ?_, ?_, by rw [hmiddle]⟩
  · rw [List.length_take, List.length_drop]
    omega
  · refine List.ne_nil_of_length_pos ?_
    rw [List.length_take]
    omega
  · refine List.ne_nil_of_length_pos ?_
    rw [hmiddle]
    omega

/-- What `fit` puts for the logs when they do not fit: the trimmed logs, within their room, or the
notice. -/
theorem fit_of_lt (h : cap < (render (withBody sections logsIndex logsBody)).length) :
    ∃ final, fit cap sections logsIndex logsBody =
        (render (withBody sections logsIndex final), true) ∧
      (final = LOGS_OMITTED ∨
        Trimmed logsBody final ∧ (render (withBody sections logsIndex final)).length ≤ cap) := by
  rw [length_render_withBody] at h
  have hmore :
      ¬ (logsBody.length : ℤ) ≤ cap - (render (withBody sections logsIndex [])).length := by omega
  rw [fit, skeleton_eq]
  simp only [if_neg hmore]
  split
  · set room : ℤ := cap - (render (withBody sections logsIndex [])).length with hroom
    set keep := (max 0 ((room - (trimMarker logsBody.length).length) / 2)).toNat with hkeepDef
    by_cases hkeep : keep = 0
    · rw [if_neg (not_not.2 hkeep)]
      exact ⟨_, rfl, Or.inl rfl⟩
    · -- the head, the tail and the widest marker fill the room at most
      have hfills : 2 * (keep : ℤ) + (trimMarker logsBody.length).length ≤ room := by omega
      have hkept : 2 * keep < logsBody.length := by omega
      rw [if_pos hkeep]
      refine ⟨_, rfl, Or.inr ⟨trimmed_of_keep hkeep hkept, ?_⟩⟩
      have hmarker : (trimMarker (logsBody.length - 2 * keep)).length ≤
          (trimMarker logsBody.length).length := length_trimMarker_le (Nat.sub_le _ _)
      rw [length_render_withBody]
      simp only [List.length_append, List.length_take, List.length_drop]
      omega
  · exact ⟨_, rfl, Or.inl rfl⟩

/-- The whole prompt, where it fits. -/
theorem fit_of_le (h : (render (withBody sections logsIndex logsBody)).length ≤ cap) :
    fit cap sections logsIndex logsBody =
      (render (withBody sections logsIndex logsBody), false) := by
  rw [length_render_withBody] at h
  have hfits : (logsBody.length : ℤ) ≤ cap - (render (withBody sections logsIndex [])).length := by
    omega
  rw [fit, skeleton_eq]
  simp only [if_pos hfits]

/-- **Only the logs give way.** Every other section is as it was. The logs are whole where the whole
fits; elsewhere they are a head and a tail around a marker that states how much was between them, or
the notice, and the prompt is within its cap whenever the other sections and the notice are. -/
theorem fit_trims_only_logs (cap : ℕ) (sections : List Section) (logsIndex : Fin sections.length)
    (logsBody : Text) :
    ∃ final, fit cap sections logsIndex logsBody =
        (render (withBody sections logsIndex final),
          decide (cap < (render (withBody sections logsIndex logsBody)).length)) ∧
      ((render (withBody sections logsIndex logsBody)).length ≤ cap → final = logsBody) ∧
      (cap < (render (withBody sections logsIndex logsBody)).length →
        Trimmed logsBody final ∨ final = LOGS_OMITTED) ∧
      ((render (withBody sections logsIndex LOGS_OMITTED)).length ≤ cap →
        (render (withBody sections logsIndex final)).length ≤ cap) := by
  rcases Nat.lt_or_ge cap (render (withBody sections logsIndex logsBody)).length with hlong | hfits
  · obtain ⟨final, hfit, hfinal⟩ := fit_of_lt hlong
    refine ⟨final, by rw [hfit, decide_eq_true hlong], fun h => ?_, fun _ => ?_, fun hnotice => ?_⟩
    · exact absurd h (Nat.not_le.2 hlong)
    · exact hfinal.elim Or.inr fun h => Or.inl h.1
    · rcases hfinal with rfl | ⟨-, hcap⟩
      · exact hnotice
      · exact hcap
  · refine ⟨logsBody, ?_, fun _ => rfl, fun h => absurd hfits (Nat.not_le.2 h), fun _ => hfits⟩
    rw [fit_of_le hfits, decide_eq_false (Nat.not_lt.2 hfits)]

end RejectionContext

end ResidentCrm
