import ResidentCrm.Lib.JsonStyles

/-!
# JSON without repeated keys

`json.loads` with an `object_pairs_hook` that refuses an object in which a key comes twice. Where it
reads a value, `loads` reads the same one (`loads_of_loadsUnique`).
-/

namespace ResidentCrm

/-- `readValue`, but an object that repeats a key is none. -/
def readUnique : ℕ → Text → Option (Json × Text)
  | 0, _ => none
  | n + 1, s =>
    match s with
    | '"' :: s => (readString n s).map fun (t, s) => (.scalar (.string t), s)
    | '[' :: s => (readAll ']' (readUnique n) n s).map fun (l, s) => (.array l, s)
    | '{' :: s => (readAll '}' (readField (readUnique n) n) n s).bind fun (pairs, s) =>
      if (pairs.map Prod.fst).Nodup then some (.object pairs, s) else none
    | 'n' :: 'u' :: 'l' :: 'l' :: s => some (.scalar .null, s)
    | 't' :: 'r' :: 'u' :: 'e' :: s => some (.scalar (.bool true), s)
    | 'f' :: 'a' :: 'l' :: 's' :: 'e' :: s => some (.scalar (.bool false), s)
    | s => (readNumber s).map fun (v, s) => (.scalar v, s)

/-- `json.loads`, but an object that repeats a key is none. -/
def loadsUnique (s : Text) : Option Json := do
  let (v, rest) ← readUnique (s.length + 1) (skipSpace s)
  if skipSpace rest = [] then some v else none

section

variable {α : Type} {close : Char} {read read' : Text → Option (α × Text)}

theorem readRest_mono (h : ∀ s r, read s = some r → read' s = some r) {n : ℕ} {s : Text}
    {r : List α × Text} (hread : readRest close read n s = some r) :
    readRest close read' n s = some r := by
  induction n generalizing s r with
  | zero => cases hread
  | succ n ih =>
    rw [readRest] at hread ⊢
    split at hread
    · cases hread
    · next c s hs =>
      by_cases hcomma : c = ','
      · rw [if_pos hcomma] at hread
        simp only [Option.bind_eq_bind, Option.bind_eq_some_iff, Option.some.injEq] at hread
        obtain ⟨a, ha, l, hl, rfl⟩ := hread
        simp only [if_pos hcomma, h _ _ ha, ih hl, Option.bind_eq_bind, Option.bind_some]
      · rw [if_neg hcomma] at hread
        rw [if_neg hcomma]
        exact hread

theorem readAll_mono (h : ∀ s r, read s = some r → read' s = some r) {n : ℕ} {s : Text}
    {r : List α × Text} (hread : readAll close read n s = some r) :
    readAll close read' n s = some r := by
  unfold readAll at hread ⊢
  split at hread
  · cases hread
  · next c s hs =>
    by_cases hclose : c = close
    · rw [if_pos hclose] at hread
      rw [if_pos hclose]
      exact hread
    · rw [if_neg hclose] at hread
      simp only [Option.bind_eq_bind, Option.bind_eq_some_iff, Option.some.injEq] at hread
      obtain ⟨a, ha, l, hl, rfl⟩ := hread
      simp only [if_neg hclose, h _ _ ha, readRest_mono h hl, Option.bind_eq_bind,
        Option.bind_some]

theorem readField_mono (h : ∀ s r, read s = some r → read' s = some r) {n : ℕ} {s : Text}
    {r : (Text × α) × Text} (hread : readField read n s = some r) :
    readField read' n s = some r := by
  unfold readField at hread ⊢
  split at hread
  · simp only [Option.bind_eq_bind, Option.bind_eq_some_iff] at hread ⊢
    obtain ⟨key, hkey, hread⟩ := hread
    refine ⟨key, hkey, ?_⟩
    split at hread
    · next s hs =>
      simp only [Option.bind_eq_some_iff, Option.some.injEq] at hread ⊢
      obtain ⟨a, ha, rfl⟩ := hread
      exact ⟨a, h _ _ ha, rfl⟩
    · cases hread
  · cases hread

end

theorem readValue_of_readUnique {n : ℕ} {s : Text} {r : Json × Text}
    (h : readUnique n s = some r) : readValue n s = some r := by
  induction n generalizing s r with
  | zero => cases h
  | succ n ih =>
    have hmono : ∀ s r, readUnique n s = some r → readValue n s = some r := fun _ _ h => ih h
    rw [readUnique.eq_def] at h
    dsimp only at h
    split at h
    · rw [readValue.eq_def]
      exact h
    · obtain ⟨l, hl, rfl⟩ := Option.map_eq_some_iff.1 h
      rw [readValue.eq_def]
      simp only [readAll_mono hmono hl, Option.map_some]
    · obtain ⟨pairs, hpairs, h⟩ := Option.bind_eq_some_iff.1 h
      split at h
      · next hnodup =>
        obtain rfl := Option.some.inj h
        have hread := readAll_mono (fun _ _ => readField_mono hmono) hpairs
        rw [readValue.eq_def]
        simp only [hread, Option.map_some, dictOf_eq hnodup]
      · cases h
    · rw [readValue.eq_def]
      exact h
    · rw [readValue.eq_def]
      exact h
    · rw [readValue.eq_def]
      exact h
    · next hquote hbracket hbrace hnull htrue hfalse =>
      -- the goal is unfolded only here, so that its own match is split
      rw [readValue.eq_def]
      dsimp only
      split
      · exact absurd rfl (hquote _)
      · exact absurd rfl (hbracket _)
      · exact absurd rfl (hbrace _)
      · exact absurd rfl (hnull _)
      · exact absurd rfl (htrue _)
      · exact absurd rfl (hfalse _)
      · exact h

theorem loads_of_loadsUnique {s : Text} {v : Json} (h : loadsUnique s = some v) :
    loads s = some v := by
  simp only [loadsUnique, loads, Option.bind_eq_bind, Option.bind_eq_some_iff] at h ⊢
  obtain ⟨r, hread, h⟩ := h
  exact ⟨r, readValue_of_readUnique hread, h⟩

end ResidentCrm
