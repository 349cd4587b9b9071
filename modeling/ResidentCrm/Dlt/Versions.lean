import ResidentCrm.Lib.Ranked
import ResidentCrm.Lib.Text
import Mathlib.Data.Prod.Lex
import Mathlib.Data.List.Lex
import Mathlib.Order.BooleanAlgebra.Defs

/-!
# Versions

`dlt/versions.py`: reading a version out of an image reference, parsing it, and ordering what was
parsed. `DLT_VERSION_PATTERN` is a parameter: what the operator's regular expression finds in a
text, if it finds anything.

Comparing two versions is comparing their `Version.rank`s: the key is the numeric core up to
trailing zeros, with a snapshot before its release, and the counter is the build
(`Version.cmp_eq`). So the order is that of `Rank`, with its ties.
-/

namespace ResidentCrm.Dlt

structure Version where
  raw : Text
  core : List ℕ
  qualifier : Text
  snapshot : Bool
  build : Option ℕ
deriving DecidableEq, Repr

/-- `DLT_VERSION_PATTERN`: the text of its `version` group where it matches. -/
abbrev Pattern := Text → Option Text

/-! ## Extraction and parsing -/

/-- The version part of a container image reference. -/
def versionOf (reference : Text) : Text :=
  let head := Text.strip (Text.before '@' reference)
  let last := Text.afterLast '/' head
  if ':' ∈ last then Text.afterLast ':' last else last

/-- `^(\d+(?:\.\d+)*)` once its first digit is read: the numbers, and what follows them. -/
def coreFrom (n : ℕ) : Text → List ℕ × Text
  | [] => ([n], [])
  | '.' :: d :: s =>
    match Text.digit d with
    | some m => let (core, tail) := coreFrom m s; (n :: core, tail)
    | none => ([n], '.' :: d :: s)
  | c :: s =>
    match Text.digit c with
    | some m => coreFrom (10 * n + m) s
    | none => ([n], c :: s)

def coreOf : Text → Option (List ℕ × Text)
  | [] => none
  | c :: s => (Text.digit c).map (coreFrom · s)

/-- `[.\-_](\d+)$`: the build ordinal at the very end of a qualifier. -/
def ordinalOf (tail : Text) : Option ℕ :=
  let digits := tail.rtakeWhile Text.isDigit
  match digits, (tail.rdropWhile Text.isDigit).getLast? with
  | _ :: _, some c => if c ∈ ['.', '-', '_'] then some (Text.toNat digits) else none
  | _, _ => none

/-- `raw.lstrip("vV")` where a digit follows a leading `v`. -/
def dropV : Text → Text
  | c :: d :: s => if c ∈ ['v', 'V'] ∧ Text.isDigit d then d :: s else c :: d :: s
  | s => s

def orElse (s t : Text) : Text := if s = [] then t else s

/-- A version of which a number has more than `Text.maxIntDigits` digits, at which `int` raises, is
left out. -/
def parse (pattern : Option Pattern) (text : Text) : Option Version := do
  let raw := Text.strip text
  if raw = [] then none
  let raw := orElse (versionOf raw) raw
  let raw := match pattern.bind (· raw) with
    | some found => orElse (Text.strip found) raw
    | none => raw
  let (core, tail) ← coreOf (dropV raw)
  some {
    raw := raw
    core := core
    qualifier := Text.lstrip ['-', '_', '.'] tail
    snapshot := Text.has "snapshot".toList (Text.lower tail)
    build := ordinalOf tail }

/-! ## Ordering -/

/-- A core with zeros to the width of another. -/
def pad (a b : List ℕ) : List ℕ := a ++ List.replicate (max a.length b.length - a.length) 0

/-- Build counters order only against each other. -/
def cmpBuild : Option ℕ → Option ℕ → ℤ
  | some m, some n => if m ≠ n then (if m < n then -1 else 1) else 0
  | _, _ => 0

/-- The order of two parsed versions: -1, 0 or 1. -/
def Version.cmp (a b : Version) : ℤ :=
  let leftCore := pad a.core b.core
  let rightCore := pad b.core a.core
  if leftCore ≠ rightCore then (if leftCore < rightCore then -1 else 1)
  else if a.snapshot ≠ b.snapshot then (if a.snapshot then -1 else 1)
  else cmpBuild a.build b.build

/-- What may be compared: a text, or a version parsed before. -/
inductive Operand where
  | text (s : Text)
  | parsed (v : Version)
deriving DecidableEq, Repr

def Operand.read (pattern : Option Pattern) : Operand → Option Version
  | .text s => parse pattern s
  | .parsed v => some v

section

variable (pattern : Option Pattern)

def compare (left right : Operand) : Option ℤ := do
  let a ← left.read pattern
  let b ← right.read pattern
  some (a.cmp b)

def atLeast (candidate required : Operand) : Option Bool :=
  (compare pattern candidate required).map (0 ≤ ·)

def isAhead (candidate baseline : Operand) : Option Bool :=
  (compare pattern candidate baseline).map (0 < ·)

def lowestFrom (winner : Version) (versions : List Version) : Version :=
  versions.foldl (fun winner version => if version.cmp winner < 0 then version else winner) winner

/-- The lowest of several versions, or `none` where any cannot be parsed. -/
def lowest (values : List Operand) : Option Version := do
  match ← values.mapM (Operand.read pattern) with
  | [] => none
  | first :: rest => some (lowestFrom first rest)

end

example : (parse none "v1.0.0-release.42".toList).map (fun v => (v.core, v.build)) =
    some ([1, 0, 0], some 42) := by decide

/-! ## Ranks -/

/-- A core without its trailing zeros. -/
def trim : List ℕ → List ℕ
  | [] => []
  | n :: l => if n = 0 ∧ trim l = [] then [] else n :: trim l

def Version.rank (v : Version) : Rank (List ℕ ×ₗ Bool) where
  key := toLex (trim v.core, !v.snapshot)
  counter := v.build

theorem trim_append_zeros (l : List ℕ) (k : ℕ) : trim (l ++ List.replicate k 0) = trim l := by
  induction l with
  | nil =>
    induction k with
    | zero => rfl
    | succ k ih =>
      have hz : trim (List.replicate k 0) = [] := ih
      simp only [List.nil_append, List.replicate_succ, trim, hz, and_self, if_true]
  | cons n l ih =>
    rw [List.cons_append, trim, ih, trim]

theorem trim_pad (a b : List ℕ) : trim (pad a b) = trim a := trim_append_zeros a _

theorem length_pad (a b : List ℕ) : (pad a b).length = max a.length b.length := by
  rw [pad, List.length_append, List.length_replicate]
  omega

theorem trim_lt_trim {a b : List ℕ} (h : a.length = b.length) : trim a < trim b ↔ a < b := by
  induction a generalizing b with
  | nil =>
    have : b = [] := List.length_eq_zero_iff.1 h.symm
    rw [this]
    exact Iff.rfl
  | cons n a ih =>
    cases b with
    | nil => cases h
    | cons m b =>
      have ih := ih (b := b) (by simpa using h)
      rw [List.cons_lt_cons_iff, ← ih]
      simp only [trim]
      split
      · next hn =>
        split
        · next hm => simp [hn.1, hm.1, hn.2, hm.2]
        · next hm =>
          simp only [hn.1, hn.2, List.nil_lt_cons, true_iff]
          by_cases hm0 : m = 0
          · have hb : trim b ≠ [] := fun h => hm ⟨hm0, h⟩
            obtain ⟨k, l, hkl⟩ := List.exists_cons_of_ne_nil hb
            exact .inr ⟨hm0.symm, hkl ▸ List.nil_lt_cons k l⟩
          · exact .inl (by omega)
      · next hn =>
        split
        · next hm =>
          simp only [hm.1, hm.2, List.not_lt_nil, Nat.not_lt_zero, and_false, or_self]
        · next hm => exact List.cons_lt_cons_iff

theorem trim_eq_trim {a b : List ℕ} (h : a.length = b.length) : trim a = trim b ↔ a = b := by
  constructor
  · intro ht
    refine le_antisymm (not_lt.1 fun hlt => ?_) (not_lt.1 fun hlt => ?_)
    · exact absurd ((trim_lt_trim h.symm).2 hlt) (ht ▸ lt_irrefl _)
    · exact absurd ((trim_lt_trim h).2 hlt) (ht ▸ lt_irrefl _)
  · exact congrArg trim

theorem pad_lt_pad (a b : List ℕ) : pad a b < pad b a ↔ trim a < trim b := by
  have hlen : (pad a b).length = (pad b a).length := by rw [length_pad, length_pad, max_comm]
  rw [← trim_lt_trim hlen, trim_pad, trim_pad]

theorem pad_eq_pad (a b : List ℕ) : pad a b = pad b a ↔ trim a = trim b := by
  have hlen : (pad a b).length = (pad b a).length := by rw [length_pad, length_pad, max_comm]
  rw [← trim_eq_trim hlen, trim_pad, trim_pad]

namespace Version

variable {a b c : Version}

def Behind (a b : Version) : Prop := a.rank.Behind b.rank

instance : DecidableRel Behind := fun a b => inferInstanceAs (Decidable (a.rank.Behind b.rank))

theorem behind_iff : a.Behind b ↔
    trim a.core < trim b.core ∨ trim a.core = trim b.core ∧
      (a.snapshot = true ∧ b.snapshot = false ∨ a.snapshot = b.snapshot ∧
        ∃ m ∈ a.build, ∃ n ∈ b.build, m < n) := by
  unfold Behind Rank.Behind rank
  rw [Prod.Lex.toLex_lt_toLex, toLex_inj, Prod.mk.injEq, Bool.lt_iff, or_assoc, and_assoc,
    ← and_or_left]
  cases a.snapshot <;> cases b.snapshot <;> simp

theorem cmpBuild_eq (m n : Option ℕ) :
    cmpBuild m n =
      if ∃ x ∈ m, ∃ y ∈ n, x < y then -1 else if ∃ y ∈ n, ∃ x ∈ m, y < x then 1 else 0 := by
  cases m with
  | none => simp [cmpBuild]
  | some m =>
    cases n with
    | none => simp [cmpBuild]
    | some n =>
      rcases lt_trichotomy m n with h | h | h
      · simp [cmpBuild, h, h.ne]
      · simp [cmpBuild, h]
      · simp [cmpBuild, h, h.ne', not_lt_of_gt h]

/-- **The order on versions is the order of their ranks.** -/
theorem cmp_eq : a.cmp b = if a.Behind b then -1 else if b.Behind a then 1 else 0 := by
  simp only [behind_iff, cmp, cmpBuild_eq, (pad_eq_pad a.core b.core).not, ne_eq,
    pad_lt_pad a.core b.core, ite_not]
  rcases lt_trichotomy (trim a.core) (trim b.core) with h | h | h
  · simp only [h, h.ne, if_true, if_false, true_or]
  · simp only [h, lt_irrefl, if_true, true_and, false_or]
    cases a.snapshot <;> cases b.snapshot <;> simp
  · simp only [h, h.ne', not_lt_of_gt h, if_true, if_false, false_and, or_false, true_or]

theorem cmp_neg_iff : a.cmp b < 0 ↔ a.Behind b := by
  rw [cmp_eq]
  split
  · next h => simp [h]
  · next h => split <;> simp [h]

theorem cmp_pos_iff : 0 < a.cmp b ↔ b.Behind a := by
  rw [cmp_eq]
  split
  · next h => simp [Rank.Behind.asymm h, Behind]
  · next h => split <;> simp_all

theorem not_behind_self (a : Version) : ¬ a.Behind a := Rank.not_behind_self _

theorem Behind.trans (h : a.Behind b) (h' : b.Behind c) : a.Behind c := Rank.Behind.trans h h'

theorem lowestFrom_eq (winner : Version) (versions : List Version) :
    lowestFrom winner versions = pick Behind winner versions := by
  unfold lowestFrom pick
  simp only [cmp_neg_iff]

end Version

section

variable {pattern : Option Pattern}

theorem atLeast_of_read {candidate required : Operand} {a b : Version}
    (ha : candidate.read pattern = some a) (hb : required.read pattern = some b) :
    atLeast pattern candidate required = some (decide ¬ a.Behind b) := by
  simp only [atLeast, compare, ha, hb, Option.bind_eq_bind, Option.bind_some, Option.map_some,
    ← Version.cmp_neg_iff, not_lt]

theorem isAhead_of_read {candidate baseline : Operand} {a b : Version}
    (ha : candidate.read pattern = some a) (hb : baseline.read pattern = some b) :
    isAhead pattern candidate baseline = some (decide (b.Behind a)) := by
  simp only [isAhead, compare, ha, hb, Option.bind_eq_bind, Option.bind_some, Option.map_some,
    ← Version.cmp_pos_iff]

theorem atLeast_eq_some_true {candidate required : Operand} :
    atLeast pattern candidate required = some true ↔ ∃ a b, candidate.read pattern = some a ∧
      required.read pattern = some b ∧ ¬ a.Behind b := by
  simp only [atLeast, compare, Option.map_eq_some_iff, Option.bind_eq_bind,
    Option.bind_eq_some_iff, Option.some.injEq, decide_eq_true_eq]
  constructor
  · rintro ⟨_, ⟨a, ha, b, hb, rfl⟩, h⟩
    exact ⟨a, b, ha, hb, fun hab => absurd (Version.cmp_neg_iff.2 hab) (not_lt.2 h)⟩
  · rintro ⟨a, b, ha, hb, h⟩
    exact ⟨_, ⟨a, ha, b, hb, rfl⟩, not_lt.1 fun hlt => h (Version.cmp_neg_iff.1 hlt)⟩

theorem isAhead_eq_some_true {candidate baseline : Operand} :
    isAhead pattern candidate baseline = some true ↔ ∃ a b, candidate.read pattern = some a ∧
      baseline.read pattern = some b ∧ b.Behind a := by
  simp only [isAhead, compare, Option.map_eq_some_iff, Option.bind_eq_bind,
    Option.bind_eq_some_iff, Option.some.injEq, decide_eq_true_eq]
  constructor
  · rintro ⟨_, ⟨a, ha, b, hb, rfl⟩, h⟩
    exact ⟨a, b, ha, hb, Version.cmp_pos_iff.1 h⟩
  · rintro ⟨a, b, ha, hb, h⟩
    exact ⟨_, ⟨a, ha, b, hb, rfl⟩, Version.cmp_pos_iff.2 h⟩

theorem mem_of_mapM {values : List Operand} {versions : List Version}
    (h : values.mapM (Operand.read pattern) = some versions) :
    (∀ x ∈ values, ∃ v ∈ versions, x.read pattern = some v) ∧
      ∀ v ∈ versions, ∃ x ∈ values, x.read pattern = some v := by
  induction values generalizing versions with
  | nil =>
    cases h
    exact ⟨fun _ hx => absurd hx List.not_mem_nil, fun _ hv => absurd hv List.not_mem_nil⟩
  | cons x values ih =>
    simp only [List.mapM_cons, Option.bind_eq_bind, Option.bind_eq_some_iff, Option.pure_def,
      Option.some.injEq] at h
    obtain ⟨v, hv, versions, hvs, rfl⟩ := h
    obtain ⟨hleft, hright⟩ := ih hvs
    constructor
    · intro y hy
      rcases List.mem_cons.1 hy with rfl | hy
      · exact ⟨v, List.mem_cons_self, hv⟩
      · obtain ⟨w, hw, hyw⟩ := hleft y hy
        exact ⟨w, List.mem_cons_of_mem _ hw, hyw⟩
    · intro w hw
      rcases List.mem_cons.1 hw with rfl | hw
      · exact ⟨x, List.mem_cons_self, hv⟩
      · obtain ⟨y, hy, hyw⟩ := hright w hw
        exact ⟨y, List.mem_cons_of_mem _ hy, hyw⟩

/-- **The lowest of several versions** is one of them that none of them is behind. -/
theorem lowest_spec {values : List Operand} {low : Version}
    (h : lowest pattern values = some low) :
    (∃ x ∈ values, x.read pattern = some low) ∧
      ∀ x ∈ values, ∃ v, x.read pattern = some v ∧ ¬ v.Behind low := by
  simp only [lowest, Option.bind_eq_bind, Option.bind_eq_some_iff] at h
  obtain ⟨versions, hread, h⟩ := h
  obtain ⟨hleft, hright⟩ := mem_of_mapM hread
  cases versions with
  | nil => cases h
  | cons first rest =>
    simp only [Option.some.injEq, Version.lowestFrom_eq] at h
    subst h
    constructor
    · exact hright _ (pick_mem first rest)
    · intro x hx
      obtain ⟨v, hv, hxv⟩ := hleft x hx
      exact ⟨v, hxv, not_before_pick Version.not_behind_self
        (fun _ _ _ => Version.Behind.trans) first rest v hv⟩

end

/-! ## Storing a version -/

theorem notMem_afterLast (c : Char) (s : Text) : c ∉ Text.afterLast c s := by
  intro h
  simpa using List.mem_rtakeWhile_imp h

theorem afterLast_of_notMem {c : Char} {s : Text} (h : c ∉ s) : Text.afterLast c s = s := by
  refine List.rtakeWhile_eq_self_iff.2 fun d hd => ?_
  rw [decide_eq_true_eq]
  rintro rfl
  exact h hd

theorem before_of_notMem {c : Char} {s : Text} (h : c ∉ s) : Text.before c s = s := by
  refine List.takeWhile_eq_self_iff.2 fun d hd => ?_
  rw [decide_eq_true_eq]
  rintro rfl
  exact h hd

/-- What is read of a version starts with a digit, or with a `v`. -/
theorem head_of_coreOf {raw tail : Text} {core : List ℕ}
    (h : coreOf (dropV raw) = some (core, tail)) : ∃ c s, raw = c :: s ∧ Text.isSpace c = false := by
  have hdigit : ∀ c s, coreOf (c :: s) = some (core, tail) → Text.isSpace c = false := by
    intro c s hcore
    obtain ⟨n, hn, -⟩ := Option.map_eq_some_iff.1 hcore
    exact Text.isSpace_of_isDigit (by rw [Text.isDigit, hn]; rfl)
  cases raw with
  | nil => cases h
  | cons c s =>
    cases s with
    | nil => exact ⟨c, [], rfl, hdigit c [] h⟩
    | cons d s =>
      refine ⟨c, d :: s, rfl, ?_⟩
      rw [dropV] at h
      split at h
      · next hv =>
        rcases List.mem_cons.1 hv.1 with rfl | hv
        · rfl
        · obtain rfl := List.mem_singleton.1 hv
          rfl
      · exact hdigit c (d :: s) h

theorem rstrip_of_suffix {s t : Text} (h : Text.rstrip t = t) (hs : s <:+ t) :
    Text.rstrip s = s := by
  refine List.rdropWhile_eq_self_iff.2 fun hne => ?_
  have hlast := List.rdropWhile_eq_self_iff.1 h (hs.ne_nil hne)
  rwa [← hs.getLast hne] at hlast

/-- What `versionOf` leaves has no whitespace after it, and nothing in it to be taken off again. -/
theorem versionOf_spec (s : Text) : '@' ∉ versionOf s ∧ '/' ∉ versionOf s ∧ ':' ∉ versionOf s ∧
    Text.rstrip (versionOf s) = versionOf s := by
  have hlast : Text.afterLast '/' (Text.strip (Text.before '@' s)) <:+
      Text.strip (Text.before '@' s) := List.rtakeWhile_suffix _ _
  have hversion : versionOf s <:+ Text.afterLast '/' (Text.strip (Text.before '@' s)) := by
    simp only [versionOf]
    split
    · exact List.rtakeWhile_suffix _ _
    · exact List.suffix_rfl
  refine ⟨fun h => ?_, fun h => ?_, ?_, ?_⟩
  · have hhead := (List.rdropWhile_prefix _ _).subset (hlast.subset (hversion.subset h))
    have hbefore := List.mem_takeWhile_imp ((List.dropWhile_suffix _).subset hhead)
    simp at hbefore
  · exact notMem_afterLast '/' _ (hversion.subset h)
  · simp only [versionOf]
    split
    · exact notMem_afterLast ':' _
    · next hcolon => exact hcolon
  · exact rstrip_of_suffix (List.rdropWhile_idempotent _ _) (hversion.trans hlast)

theorem versionOf_of_plain {s : Text} (hstrip : Text.strip s = s) (hat : '@' ∉ s) (hslash : '/' ∉ s)
    (hcolon : ':' ∉ s) : versionOf s = s := by
  simp only [versionOf]
  rw [before_of_notMem hat, hstrip, afterLast_of_notMem hslash, if_neg hcolon]

/-- The text that a version is read from, by the stripped reference. -/
def rawOf (s : Text) : Text := orElse (versionOf s) s

/-- Nothing more is taken off a text that a version was read from. -/
theorem rawOf_reread {s : Text} (hs : Text.strip s = s) {core : List ℕ} {tail : Text}
    (h : coreOf (dropV (rawOf s)) = some (core, tail)) :
    Text.strip (rawOf s) = rawOf s ∧ rawOf (rawOf s) = rawOf s := by
  by_cases hversion : versionOf s = []
  · have hraw : rawOf s = s := if_pos hversion
    rw [hraw]
    exact ⟨hs, hraw⟩
  · have hraw : rawOf s = versionOf s := if_neg hversion
    rw [hraw] at h ⊢
    obtain ⟨hat, hslash, hcolon, hend⟩ := versionOf_spec s
    obtain ⟨c, t, hcons, hc⟩ := head_of_coreOf h
    have hstrip : Text.strip (versionOf s) = versionOf s := by
      refine Text.strip_of_ends (fun d hd => ?_) hend
      rw [hcons] at hd
      obtain rfl := Option.some.inj hd
      exact hc
    have hagain := versionOf_of_plain hstrip hat hslash hcolon
    refine ⟨hstrip, ?_⟩
    rw [rawOf, hagain]
    exact if_neg hversion

/-- `parse` without a pattern. -/
theorem parse_none (s : Text) : parse none s =
    if Text.strip s = [] then none
    else (coreOf (dropV (rawOf (Text.strip s)))).map fun core =>
      { raw := rawOf (Text.strip s)
        core := core.1
        qualifier := Text.lstrip ['-', '_', '.'] core.2
        snapshot := Text.has "snapshot".toList (Text.lower core.2)
        build := ordinalOf core.2 } := by
  unfold parse rawOf
  split
  · next hs => simp [hs]
  · next hs =>
    simp only [hs, if_false, Option.bind_none, Option.bind_eq_bind]
    cases coreOf (dropV (orElse (versionOf (Text.strip s)) (Text.strip s))) <;> rfl

/-- **A version that is stored as its text is read back.** -/
theorem parse_raw {s : Text} {v : Version} (h : parse none s = some v) :
    parse none v.raw = some v := by
  rw [parse_none] at h
  split at h
  · cases h
  · next hs =>
    obtain ⟨core, hcore, rfl⟩ := Option.map_eq_some_iff.1 h
    obtain ⟨hstrip, hraw⟩ := rawOf_reread (Text.strip_idempotent s) hcore
    obtain ⟨c, t, hcons, -⟩ := head_of_coreOf hcore
    rw [parse_none]
    simp only [hstrip, hraw, hcore, Option.map_some]
    rw [if_neg (by rw [hcons]; exact List.cons_ne_nil _ _)]

/-! ## The laws -/

/-- The laws of a partial order for what `compare`, `at_least` and `is_ahead` answer, and that
versions may be stored as their texts. -/
structure Lawful (pattern : Option Pattern) : Prop where
  antisymmetric : ∀ x y, compare pattern x y = (compare pattern y x).map (- ·)
  transitive : ∀ x y z, (∃ m < 0, compare pattern x y = some m) →
    (∃ m < 0, compare pattern y z = some m) → ∃ m < 0, compare pattern x z = some m
  at_least : ∀ x y, atLeast pattern x y = some false ↔ ∃ m < 0, compare pattern x y = some m
  ahead : ∀ x y, isAhead pattern x y = some true →
    atLeast pattern x y = some true ∧ atLeast pattern y x = some false
  stored : ∀ s v, parse pattern s = some v → parse pattern v.raw = some v
  answers : ∀ s t v w, parse pattern s = some v → parse pattern t = some w →
    compare pattern (.text v.raw) (.text w.raw) = compare pattern (.text s) (.text t)

theorem compare_eq_some {pattern : Option Pattern} {x y : Operand} {m : ℤ} :
    compare pattern x y = some m ↔ ∃ a b, x.read pattern = some a ∧ y.read pattern = some b ∧
      a.cmp b = m := by
  simp only [compare, Option.bind_eq_bind, Option.bind_eq_some_iff, Option.some.injEq]
  constructor
  · rintro ⟨a, ha, b, hb, hm⟩
    exact ⟨a, b, ha, hb, hm⟩
  · rintro ⟨a, b, ha, hb, hm⟩
    exact ⟨a, ha, b, hb, hm⟩

theorem Version.cmp_neg (a b : Version) : a.cmp b = - b.cmp a := by
  rw [cmp_eq, cmp_eq]
  by_cases hab : a.Behind b
  · have hba : ¬ b.Behind a := Rank.Behind.asymm hab
    rw [if_pos hab, if_neg hba, if_pos hab]
  · rw [if_neg hab, if_neg hab]
    by_cases hba : b.Behind a
    · rw [if_pos hba, if_pos hba]
      rfl
    · rw [if_neg hba, if_neg hba]
      rfl

theorem behind_of_compare {pattern : Option Pattern} {x y : Operand} :
    (∃ m < 0, compare pattern x y = some m) ↔ ∃ a b, x.read pattern = some a ∧
      y.read pattern = some b ∧ a.Behind b := by
  simp only [compare_eq_some]
  constructor
  · rintro ⟨m, hm, a, b, ha, hb, rfl⟩
    exact ⟨a, b, ha, hb, Version.cmp_neg_iff.1 hm⟩
  · rintro ⟨a, b, ha, hb, hab⟩
    exact ⟨_, Version.cmp_neg_iff.2 hab, a, b, ha, hb, rfl⟩

/-- **Comparing versions is lawful**, and survives their storage. -/
theorem lawful_none : Lawful none where
  antisymmetric x y := by
    unfold compare
    cases x.read none with
    | none => cases y.read none <;> rfl
    | some a =>
      cases y.read none with
      | none => rfl
      | some b => exact congrArg some (Version.cmp_neg a b)
  transitive x y z hxy hyz := by
    obtain ⟨a, b, ha, hb, hab⟩ := behind_of_compare.1 hxy
    obtain ⟨b', c, hb', hc, hbc⟩ := behind_of_compare.1 hyz
    obtain rfl := Option.some.inj (hb.symm.trans hb')
    exact behind_of_compare.2 ⟨a, c, ha, hc, hab.trans hbc⟩
  at_least x y := by
    simp only [atLeast, Option.map_eq_some_iff, decide_eq_false_iff_not, not_le]
    constructor
    · rintro ⟨m, hm, hneg⟩
      exact ⟨m, hneg, hm⟩
    · rintro ⟨m, hneg, hm⟩
      exact ⟨m, hm, hneg⟩
  ahead x y h := by
    obtain ⟨a, b, ha, hb, hba⟩ := isAhead_eq_some_true.1 h
    rw [atLeast_of_read ha hb, atLeast_of_read hb ha]
    exact ⟨congrArg some (decide_eq_true (Rank.Behind.asymm hba)),
      congrArg some (decide_eq_false (not_not_intro hba))⟩
  stored _ _ := parse_raw
  answers s t v w hv hw := by
    simp only [compare, Operand.read, parse_raw hv, parse_raw hw, hv, hw]

end ResidentCrm.Dlt
