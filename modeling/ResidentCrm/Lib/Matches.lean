import ResidentCrm.Lib.Words

/-!
# The matches of a pattern

`re.finditer`: at each place of a text, from the left, the pattern matches or not, by the character
before the place and the text from it on; where it does, the search goes on after the match. A
pattern is how long its match at a place is (`Pattern`), and finds something in a text exactly where
it matches at some place (`finditer_ne_nil`).
-/

namespace ResidentCrm.Text

/-- The length of the match at a place, by the character before it and the text from it on. -/
abbrev Pattern := Option Char → Text → Option ℕ

/-- The matches in a text that follows the character `prev`, the first `skip` characters of which
belong to the match before. -/
def finditerFrom (p : Pattern) : (skip : ℕ) → (prev : Option Char) → Text → List Text
  | _, _, [] => []
  | skip + 1, _, c :: s => finditerFrom p skip (some c) s
  | 0, prev, c :: s =>
    match p prev (c :: s) with
    | some n => (c :: s).take n :: finditerFrom p (n - 1) (some c) s
    | none => finditerFrom p 0 (some c) s

def finditer (p : Pattern) (s : Text) : List Text := finditerFrom p 0 none s

theorem finditerFrom_ne_nil {p : Pattern} (hp : ∀ prev, p prev [] = none) {prev : Option Char}
    {s : Text} : finditerFrom p 0 prev s ≠ [] ↔
      ∃ a b, s = a ++ b ∧ (p (a.getLast?.or prev) b).isSome = true := by
  induction s generalizing prev with
  | nil =>
    refine iff_of_false (fun h => h rfl) ?_
    rintro ⟨a, b, hs, hmatch⟩
    obtain ⟨rfl, rfl⟩ := List.append_eq_nil_iff.1 hs.symm
    rw [hp] at hmatch
    cases hmatch
  | cons c s ih =>
    rw [finditerFrom]
    cases hhere : p prev (c :: s) with
    | some n => exact iff_of_true (List.cons_ne_nil _ _) ⟨[], c :: s, rfl, by simp [hhere]⟩
    | none =>
      dsimp only
      rw [ih]
      constructor
      · rintro ⟨a, b, rfl, hmatch⟩
        refine ⟨c :: a, b, rfl, ?_⟩
        rw [List.getLast?_cons]
        cases ha : a.getLast? <;> simpa [ha] using hmatch
      · rintro ⟨a, b, hs, hmatch⟩
        cases a with
        | nil =>
          obtain rfl : c :: s = b := hs
          rw [List.getLast?_nil, Option.none_or, hhere] at hmatch
          cases hmatch
        | cons d a =>
          obtain ⟨rfl, rfl⟩ := List.cons.inj hs
          refine ⟨a, b, rfl, ?_⟩
          rw [List.getLast?_cons] at hmatch
          cases ha : a.getLast? <;> simpa [ha] using hmatch

/-- **A pattern finds something** where it matches somewhere. -/
theorem finditer_ne_nil {p : Pattern} (hp : ∀ prev, p prev [] = none) {s : Text} :
    finditer p s ≠ [] ↔ ∃ a b, s = a ++ b ∧ (p a.getLast? b).isSome = true := by
  rw [finditer, finditerFrom_ne_nil hp]
  simp only [Option.or_none]

/-! ## Runs -/

/-- The run of characters a text starts with ends where the next is none of them. -/
theorem takeWhile_append_of_head {q : Char → Bool} {w b : Text} (hw : ∀ c ∈ w, q c = true)
    (hb : b.head?.any q = false) : (w ++ b).takeWhile q = w := by
  rw [List.takeWhile_append_of_pos hw]
  cases b with
  | nil => simp
  | cons c b =>
    rw [List.takeWhile_cons_of_neg (by simpa using hb), List.append_nil]

end ResidentCrm.Text
