import ResidentCrm.Lib.Split
import ResidentCrm.Logs.Pipeline

/-!
# The limit on a trace

A trace that is longer than the limit loses its middle to a marker, which states how many
characters that was. It never states as many (`trims_exactly_iff`): the number is what the trace has
over the limit, and the marker's own room is lost besides (`excess_add_marker_le`); the marker of a
trimmed prompt counts what it stands for. Where the limit leaves no room for a character on each
side of the marker the whole trace follows it (`within_iff`).
-/

namespace ResidentCrm.Logs

open Text

/-- The marker that states `n` characters. -/
def marker (n : ℕ) : Text := "\n\n".toList ++ omittedNotice n ++ "\n\n".toList

/-- `out` is a beginning and an end of `body` around a marker. -/
structure AroundMarker (body out head left tail : Text) (stated : ℕ) : Prop where
  body_eq : body = head ++ left ++ tail
  out_eq : out = head ++ marker stated ++ tail

/-- A marker states as many characters as are left out. -/
def StatesLoss (body out : Text) : Prop :=
  ∃ head left tail, AroundMarker body out head left tail left.length

/-- `out` keeps to the limit, and it is the trace or states its loss. Where a trace quotes a marker
itself there may be more than one to read `out` around, and none of them states another number. -/
structure Trimmed (limit : ℤ) (body out : Text) : Prop where
  within : out.length ≤ limit
  loss : out = body ∨ StatesLoss body out ∧
    ∀ head left tail stated, AroundMarker body out head left tail stated → stated = left.length

/-! ## Traces that quote no marker -/

/-- What a marker ends in. -/
def mention : Text := "(LOG_MAX_REDUCED_CHARS) ...".toList

/-- What a marker says between the number and the mention. -/
def omission : Text := " characters omitted from the middle of this trace ".toList

/-- What stands before the mention. -/
def lead (n : ℕ) : Text := "\n... ".toList ++ Text.ofNat n ++ omission

theorem omittedNotice_eq (n : ℕ) : '\n' :: omittedNotice n = lead n ++ mention := by
  have hnotice :
      " characters omitted from the middle of this trace (LOG_MAX_REDUCED_CHARS) ...".toList =
        omission ++ mention := by decide +kernel
  calc '\n' :: omittedNotice n
    _ = '\n' :: ("... ".toList ++ Text.ofNat n ++ (omission ++ mention)) :=
      congrArg (fun t => '\n' :: ("... ".toList ++ Text.ofNat n ++ t)) hnotice
    _ = lead n ++ mention := congrArg ('\n' :: ·) (List.append_assoc _ omission mention).symm

theorem marker_eq (n : ℕ) : marker n = '\n' :: (lead n ++ mention) ++ "\n\n".toList := by
  rw [← omittedNotice_eq]
  rfl

theorem mention_not_in_lead (n : ℕ) : ¬mention <:+: lead n := by
  intro h
  have hparen : '(' ∈ lead n := h.subset (by decide)
  rcases List.mem_append.1 hparen with hparen | hparen
  · rcases List.mem_append.1 hparen with hparen | hparen
    · exact absurd hparen (by decide)
    · exact absurd (isDigit_ofNat hparen) (by decide)
  · exact absurd hparen (by decide +kernel)

/-- A marker splits what does not quote one. -/
theorem split_marker {head tail : Text} (hhead : ¬mention <:+: head) (htail : ¬mention <:+: tail)
    (n : ℕ) :
    split mention (head ++ marker n ++ tail) = [head ++ '\n' :: lead n, '\n' :: '\n' :: tail] := by
  have hbreak : '\n' ∉ mention := by decide
  have hbefore : ¬mention <:+: head ++ '\n' :: lead n := by
    intro h
    exact (infix_of_infix_append hbreak h).elim hhead (mention_not_in_lead n)
  have hline : ∀ {s : Text}, ¬mention <:+: s → ¬mention <:+: '\n' :: s := by
    intro s hs h
    rcases List.infix_cons_iff.1 h with h | h
    · exact absurd (List.cons_prefix_cons.1 h).1 (by decide)
    · exact hs h
  have hout : head ++ marker n ++ tail =
      (head ++ '\n' :: lead n) ++ mention ++ '\n' :: '\n' :: tail := by
    rw [marker_eq]
    simp
  have hfront : split mention (head ++ '\n' :: lead n) = [head ++ '\n' :: lead n] :=
    split_of_not_infix hbefore
  have hend : split mention ('\n' :: '\n' :: tail) = ['\n' :: '\n' :: tail] :=
    split_of_not_infix <| hline <| hline htail
  rw [hout]
  refine (split_append (by decide) _ _).trans ?_
  exact congrArg₂ (· ++ ·) hfront hend

theorem append_lead (head : Text) (n : ℕ) : head ++ '\n' :: lead n =
    head ++ "\n\n...".toList ++ ' ' :: Text.ofNat n ++ omission := by
  rw [List.append_assoc head, List.append_assoc head]
  rfl

/-- A trace that quotes no marker is read around one only. -/
theorem AroundMarker.unique {body out head left tail head' left' tail' : Text} {n n' : ℕ}
    (hbody : ¬mention <:+: body) (h : AroundMarker body out head left tail n)
    (h' : AroundMarker body out head' left' tail' n') : left = left' ∧ n = n' := by
  have hhead : ∀ {head left tail n}, AroundMarker body out head left tail n → ¬mention <:+: head :=
    fun h hm => hbody (h.body_eq ▸ hm.trans ⟨[], _, (List.append_assoc ..).symm⟩)
  have htail : ∀ {head left tail n}, AroundMarker body out head left tail n → ¬mention <:+: tail :=
    fun h hm => hbody (h.body_eq ▸ hm.trans (List.suffix_append _ _).isInfix)
  have hsplit := h.out_eq.symm.trans h'.out_eq
  have hpieces := congrArg (split mention) hsplit
  rw [split_marker (hhead h) (htail h), split_marker (hhead h') (htail h')] at hpieces
  obtain ⟨hlead, hrest⟩ := List.cons.inj hpieces
  have htails : tail = tail' := by simpa using hrest
  rw [append_lead, append_lead] at hlead
  have hspace : ∀ n, ' ' ∉ Text.ofNat n := fun n h => absurd (isDigit_ofNat h) (by decide)
  obtain ⟨hheads, hnumber⟩ :=
    append_cons_inj_of_last (hspace n) (hspace n') (List.append_cancel_right hlead)
  have hheads := List.append_cancel_right hheads
  subst hheads htails
  have hbodies := h.body_eq.symm.trans h'.body_eq
  exact ⟨List.append_cancel_left (List.append_cancel_right hbodies), ofNat_injective hnumber⟩

/-- Of a trace that quotes no marker it is enough that one reading states the loss. -/
theorem trimmed_of_unquoted {limit : ℤ} {body out : Text} (hbody : ¬mention <:+: body)
    (hwithin : out.length ≤ limit) (hloss : out = body ∨ StatesLoss body out) :
    Trimmed limit body out := by
  refine ⟨hwithin, hloss.imp_right fun hstates => ⟨hstates, ?_⟩⟩
  intro head left tail stated h
  obtain ⟨head', left', tail', h'⟩ := hstates
  obtain ⟨rfl, hnumber⟩ := h.unique hbody h'
  exact hnumber

/-! ## What is left out -/

section

variable {limit : ℤ} {body : Text}

theorem boundTotalSize_of_le (h : body.length ≤ limit) : boundTotalSize limit body = body :=
  if_pos h

theorem boundTotalSize_of_lt (h : limit < body.length) : boundTotalSize limit body =
    body.take (keep limit body) ++ marker (excess limit body) ++ body.drop (tailStart limit body) :=
  if_neg (not_le.2 h)

/-- What is kept and the marker find room. -/
theorem room_of_keep (h : 0 < keep limit body) :
    (2 * keep limit body + (marker (excess limit body)).length : ℤ) ≤ limit := by
  have hseam : marker (excess limit body) = seam limit body := rfl
  rw [hseam]
  unfold keep at h ⊢
  omega

theorem length_boundTotalSize_of_keep (h : limit < body.length) (hkeep : 0 < keep limit body) :
    (boundTotalSize limit body).length =
      2 * keep limit body + (marker (excess limit body)).length := by
  have hroom := room_of_keep hkeep
  have htail : tailStart limit body = body.length - keep limit body := if_neg hkeep.ne'
  rw [boundTotalSize_of_lt h, htail]
  simp only [List.length_append, List.length_take, List.length_drop]
  omega

/-- Where nothing is kept in front the whole trace stands behind the marker. -/
theorem boundTotalSize_of_not_keep (h : limit < body.length) (hkeep : keep limit body = 0) :
    boundTotalSize limit body = marker (excess limit body) ++ body := by
  have htail : tailStart limit body = 0 := if_pos hkeep
  rw [boundTotalSize_of_lt h, hkeep, htail, List.take_zero, List.drop_zero, List.nil_append]

/-- **The limit is kept** exactly where it has room for a character on each side of the marker. -/
theorem within_iff (h : limit < body.length) :
    (boundTotalSize limit body).length ≤ limit ↔ 0 < keep limit body := by
  constructor
  · intro hwithin
    by_contra hkeep
    rw [boundTotalSize_of_not_keep h (by omega), List.length_append] at hwithin
    omega
  · intro hkeep
    rw [length_boundTotalSize_of_keep h hkeep]
    exact_mod_cast room_of_keep hkeep

theorem aroundMarker_boundTotalSize (h : limit < body.length) (hkeep : 0 < keep limit body) :
    AroundMarker body (boundTotalSize limit body) (body.take (keep limit body))
      ((body.drop (keep limit body)).take (body.length - 2 * keep limit body))
      (body.drop (tailStart limit body)) (excess limit body) where
  body_eq := by
    have hroom := room_of_keep hkeep
    have htail : tailStart limit body = body.length - keep limit body := if_neg hkeep.ne'
    rw [htail, take_middle_drop (by omega)]
  out_eq := boundTotalSize_of_lt h

/-- More is left out than the trace has over the limit: what the marker takes as well. -/
theorem excess_add_marker_le (h : limit < body.length) (hkeep : 0 < keep limit body) :
    excess limit body + (marker (excess limit body)).length ≤
      body.length - 2 * keep limit body := by
  have hroom := room_of_keep hkeep
  unfold excess at *
  omega

theorem not_trimmed_of_lt (h : limit < body.length) :
    ¬Trimmed limit body (boundTotalSize limit body) := by
  intro htrimmed
  have hkeep : 0 < keep limit body := (within_iff h).1 htrimmed.within
  have hroom := room_of_keep hkeep
  have hleft := excess_add_marker_le h hkeep
  rcases htrimmed.loss with hsame | ⟨-, hstates⟩
  · have hlength := length_boundTotalSize_of_keep h hkeep
    rw [hsame] at hlength
    omega
  · have hnumber := hstates _ _ _ _ (aroundMarker_boundTotalSize h hkeep)
    have hmarker : 0 < (marker (excess limit body)).length := Nat.succ_pos _
    rw [length_middle] at hnumber
    omega

end

/-- **Trimming states its loss exactly** only where there is nothing to trim. -/
theorem trims_exactly_iff (limit : ℤ) (body : Text) :
    Trimmed limit body (boundTotalSize limit body) ↔ body.length ≤ limit := by
  constructor
  · intro htrimmed
    by_contra h
    exact not_trimmed_of_lt (not_le.1 h) htrimmed
  · intro h
    rw [boundTotalSize_of_le h]
    exact ⟨h, .inl rfl⟩

/-- A hundred and one characters at a limit of a hundred: seven are kept on each side and one is
stated. -/
theorem hundred_and_one_understated :
    let body := List.replicate 101 'a'
    ¬(((boundTotalSize 100 body).length : ℤ) ≤ 100 ∧
      (boundTotalSize 100 body = body ∨ StatesLoss body (boundTotalSize 100 body))) := by
  rintro body ⟨hwithin, hloss⟩
  have hplain : ¬mention <:+: body := by
    intro h
    have hparen : '(' ∈ body := h.subset (by decide)
    exact absurd (List.eq_of_mem_replicate hparen) (by decide)
  have hlong : (100 : ℤ) < body.length := by decide
  exact not_trimmed_of_lt hlong (trimmed_of_unquoted hplain hwithin hloss)

end ResidentCrm.Logs
