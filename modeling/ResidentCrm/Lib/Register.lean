import Mathlib.Data.List.Basic
import Mathlib.Tactic.Common

/-!
# A register with tags

One value, absent or present, under a tag that whoever wrote it cannot choose. Tags are compared up
to `norm`, and a tag tells contents apart: a register never gives two contents tags that compare
equal, though one content may come back under a tag it had before.

A client that read a content under a tag, and writes only where the tag still compares equal, writes
over the content it read (`content_of_tag`); so what such clients have written is what they would
have written one after another (`Serially`).
-/

namespace ResidentCrm

universe u v w x

/-- The content and its tag, and all that came before. -/
structure Register (D : Type u) (τ : Type v) {ν : Type w} (norm : τ → ν) where
  current : Option (D × τ)
  versions : List (D × τ)
  mem : ∀ x ∈ current, x ∈ versions
  told : ∀ x ∈ versions, ∀ y ∈ versions, norm x.2 = norm y.2 → x.1 = y.1

namespace Register

variable {D : Type u} {τ : Type v} {ν : Type w} {norm : τ → ν}

/-- The tag may be given to the content. -/
def Admits (r : Register D τ norm) (d : D) (t : τ) : Prop :=
  ∀ x ∈ r.versions, norm x.2 = norm t → x.1 = d

instance [DecidableEq D] [DecidableEq ν] (r : Register D τ norm) (d : D) (t : τ) :
    Decidable (r.Admits d t) :=
  inferInstanceAs (Decidable (∀ x ∈ r.versions, norm x.2 = norm t → x.1 = d))

def put (r : Register D τ norm) (d : D) (t : τ) (h : r.Admits d t) : Register D τ norm where
  current := some (d, t)
  versions := (d, t) :: r.versions
  mem := by
    rintro x ⟨⟩
    exact List.mem_cons_self
  told := by
    intro x hx y hy hnorm
    rcases List.mem_cons.1 hx with rfl | hx <;> rcases List.mem_cons.1 hy with rfl | hy
    · rfl
    · exact (h y hy hnorm.symm).symm
    · exact h x hx hnorm
    · exact r.told x hx y hy hnorm

variable {r : Register D τ norm} {d d' : D} {t t' : τ}

@[simp] theorem put_current (h : r.Admits d t) : (r.put d t h).current = some (d, t) := rfl

@[simp] theorem put_versions (h : r.Admits d t) :
    (r.put d t h).versions = (d, t) :: r.versions := rfl

/-- **A tag that still compares equal is the tag of the content that was read under it.** -/
theorem content_of_tag (hread : (d, t) ∈ r.versions) (hcurrent : r.current = some (d', t'))
    (hnorm : norm t = norm t') : d = d' :=
  r.told _ hread _ (r.mem _ hcurrent) hnorm

end Register

/-! ## One after another -/

variable {D : Type u} {κ : Type x}

/-- From one content to another by the writes listed, each of them applied to what the one before it
left and paired with what it wrote. -/
def Serially (apply : κ → Option D → Option D) : Option D → List (κ × D) → Option D → Prop
  | first, [], last => last = first
  | first, (c, d) :: rest, last => apply c first = some d ∧ Serially apply (some d) rest last

variable {apply : κ → Option D → Option D} {first middle last : Option D} {l l' : List (κ × D)}

theorem Serially.append (h : Serially apply first l middle)
    (h' : Serially apply middle l' last) : Serially apply first (l ++ l') last := by
  induction l generalizing first with
  | nil =>
    obtain rfl : middle = first := h
    exact h'
  | cons x l ih => exact ⟨h.1, ih h.2⟩

theorem Serially.concat {c : κ} {d : D} (h : Serially apply first l middle)
    (hc : apply c middle = some d) : Serially apply first (l ++ [(c, d)]) (some d) :=
  h.append ⟨hc, rfl⟩

end ResidentCrm
