import Mathlib.Algebra.GroupWithZero.Nat
import Mathlib.Algebra.Ring.Int.Defs
import Mathlib.Algebra.Ring.Nat
import Mathlib.Data.Char
import Mathlib.Data.List.DropRight
import Mathlib.Data.List.Infix
import Mathlib.Data.List.Lex
import Mathlib.Order.Lattice
import Mathlib.Tactic.Common

/-!
# Text

Text as a list of characters, with the string operations of Python that the models use. White
space and decimal digits are Unicode's, as `str.strip` and `\d` read them.
-/

namespace ResidentCrm

abbrev Text := List Char

instance : LawfulBEq Text := List.instLawfulBEq

namespace Text

/-- `str.isspace` of one character. -/
def isSpace (c : Char) : Bool :=
  let n := c.toNat
  (0x9 ≤ n && n ≤ 0xd) || (0x1c ≤ n && n ≤ 0x20) || n = 0x85 || n = 0xa0 || n = 0x1680 ||
    (0x2000 ≤ n && n ≤ 0x200a) || n = 0x2028 || n = 0x2029 || n = 0x202f || n = 0x205f ||
    n = 0x3000

theorem forall_of_all {p : Char → Prop} [DecidablePred p] {s : Text}
    (h : s.all (fun c => decide (p c)) = true) : ∀ c ∈ s, p c :=
  fun c hc => of_decide_eq_true (List.all_eq_true.1 h c hc)

/-- The zeros of Unicode's decimal digits; each is followed by its nine others. -/
def zeros : List ℕ :=
  [0x30, 0x660, 0x6f0, 0x7c0, 0x966, 0x9e6, 0xa66, 0xae6, 0xb66, 0xbe6, 0xc66, 0xce6, 0xd66, 0xde6,
   0xe50, 0xed0, 0xf20, 0x1040, 0x1090, 0x17e0, 0x1810, 0x1946, 0x19d0, 0x1a80, 0x1a90, 0x1b50,
   0x1bb0, 0x1c40, 0x1c50, 0xa620, 0xa8d0, 0xa900, 0xa9d0, 0xa9f0, 0xaa50, 0xabf0, 0xff10, 0x104a0,
   0x10d30, 0x10d40, 0x11066, 0x110f0, 0x11136, 0x111d0, 0x112f0, 0x11450, 0x114d0, 0x11650,
   0x116c0, 0x116d0, 0x116da, 0x11730, 0x118e0, 0x11950, 0x11bf0, 0x11c50, 0x11d50, 0x11da0,
   0x11f50, 0x16130, 0x16a60, 0x16ac0, 0x16b50, 0x16d70, 0x1ccf0, 0x1d7ce, 0x1d7d8, 0x1d7e2,
   0x1d7ec, 0x1d7f6, 0x1e140, 0x1e2f0, 0x1e4f0, 0x1e5f1, 0x1e950, 0x1fbf0]

/-- The value of a decimal digit, `\d` of a regular expression. -/
def digit (c : Char) : Option ℕ :=
  (zeros.find? fun z => z ≤ c.toNat && c.toNat < z + 10).map (c.toNat - ·)

def isDigit (c : Char) : Bool := (digit c).isSome

/-- `int` of a run of digits, of `maxIntDigits` at most. -/
def toNat (s : Text) : ℕ := s.foldl (fun n c => 10 * n + (digit c).getD 0) 0

/-- The most digits that `int` takes of a text. -/
def maxIntDigits : ℕ := 4300

/-- `str.lower`, as far as comparing with ASCII text can tell: beside the capitals of ASCII the
dotted capital I and the Kelvin sign have a lower case with an ASCII letter in it. -/
def lower (s : Text) : Text :=
  s.flatMap fun c =>
    if c.toNat = 0x130 then ['i', Char.ofNat 0x307]
    else if c.toNat = 0x212a then ['k']
    else [c.toLower]

/-- Lower case is for the capitals of ASCII the letter 32 characters on. -/
theorem toLower_cases (c : Char) :
    c.toLower = c ∨ 65 ≤ c.toNat ∧ c.toNat ≤ 90 ∧ c.toLower.toNat = c.toNat + 32 := by
  unfold Char.toLower
  split
  · next hupper =>
    simp only [ge_iff_le, UInt32.le_iff_toNat_le] at hupper
    change 65 ≤ c.toNat ∧ c.toNat ≤ 90 at hupper
    refine .inr ⟨hupper.1, hupper.2, ?_⟩
    change (c.val + ('a'.val - 'A'.val)).toNat = c.toNat + 32
    rw [UInt32.toNat_add]
    change (c.toNat + 32) % 2 ^ 32 = c.toNat + 32
    omega
  · exact .inl rfl

/-- `str.upper`, as far as comparing with ASCII text can tell. -/
def upper (s : Text) : Text := s.map Char.toUpper

def strip (s : Text) : Text := (s.dropWhile isSpace).rdropWhile isSpace

def rstrip (s : Text) : Text := s.rdropWhile isSpace

/-- A line boundary of `str.splitlines`. -/
def isBreak (c : Char) : Bool :=
  let n := c.toNat
  (0xa ≤ n && n ≤ 0xd) || (0x1c ≤ n && n ≤ 0x1e) || n = 0x85 || n = 0x2028 || n = 0x2029

/-- `str.splitlines`, up to empty lines: a pair of carriage return and line feed is two
boundaries. -/
def splitlines (s : Text) : List Text := s.splitOnP isBreak

/-- A letter as `re.IGNORECASE` compares it with the lower case of ASCII: beside the capitals the
dotted and dotless I, the long S and the Kelvin sign match one. -/
def fold (c : Char) : Char :=
  if c.toNat = 0x130 ∨ c.toNat = 0x131 then 'i'
  else if c.toNat = 0x17f then 's'
  else if c.toNat = 0x212a then 'k'
  else c.toLower

/-- What follows `pattern`, given in lower case, at the start of the text. -/
def afterPattern : (pattern : List Char) → Text → Option Text
  | [], s => some s
  | p :: ps, c :: s => if fold c = p then afterPattern ps s else none
  | _ :: _, [] => none

/-- What follows the first place where `pattern` stands. -/
def afterFirst (pattern : List Char) (s : Text) : Option Text :=
  s.tails.findSome? (afterPattern pattern)

def lstrip (chars : List Char) (s : Text) : Text := s.dropWhile (· ∈ chars)

/-- `str.strip(chars)`. -/
def stripOf (chars : List Char) (s : Text) : Text :=
  (s.dropWhile (· ∈ chars)).rdropWhile (· ∈ chars)

/-- `s.split(c, 1)[0]`. -/
def before (c : Char) (s : Text) : Text := s.takeWhile (· ≠ c)

/-- `s.rsplit(c, 1)[-1]`. -/
def afterLast (c : Char) (s : Text) : Text := s.rtakeWhile (· ≠ c)

/-- `s.rsplit(c, 1)[0]` where `c` is in `s`. -/
def beforeLast (c : Char) (s : Text) : Text := (s.rdropWhile (· ≠ c)).dropLast

/-- `part in s`. -/
def has (part s : Text) : Bool := s.tails.any part.isPrefixOf

/-- `s.replace(c, d)` for single characters. -/
def replace (c d : Char) (s : Text) : Text := s.map fun x => if x = c then d else x

/-- What stands before and after the first `c`. -/
theorem append_cons_inj {c : Char} : ∀ {a a' x x' : Text}, c ∉ a → c ∉ a' →
    a ++ c :: x = a' ++ c :: x' → a = a' ∧ x = x'
  | [], [], _, _, _, _, h => ⟨rfl, List.cons.inj h |>.2⟩
  | [], d :: a', _, _, _, ha', h => by
    obtain ⟨rfl, -⟩ := List.cons.inj h
    exact absurd List.mem_cons_self ha'
  | d :: a, [], _, _, ha, _, h => by
    obtain ⟨rfl, -⟩ := List.cons.inj h
    exact absurd List.mem_cons_self ha
  | d :: a, d' :: a', _, _, ha, ha', h => by
    obtain ⟨rfl, hrest⟩ := List.cons.inj h
    obtain ⟨rfl, hx⟩ := append_cons_inj (fun hc => ha (List.mem_cons_of_mem _ hc))
      (fun hc => ha' (List.mem_cons_of_mem _ hc)) hrest
    exact ⟨rfl, hx⟩

/-- What stands before and after the last `c`. -/
theorem append_cons_inj_of_last {c : Char} {a a' x x' : Text} (hx : c ∉ x) (hx' : c ∉ x')
    (h : a ++ c :: x = a' ++ c :: x') : a = a' ∧ x = x' := by
  rcases List.append_eq_append_iff.1 h with ⟨b, rfl, hb⟩ | ⟨b, rfl, hb⟩
  · cases b with
    | nil => exact ⟨(List.append_nil a).symm, (List.cons.inj hb).2⟩
    | cons d b =>
      rw [List.cons_append, List.cons.injEq] at hb
      exact absurd (hb.2 ▸ List.mem_append_right _ List.mem_cons_self) hx
  · cases b with
    | nil => exact ⟨List.append_nil a', (List.cons.inj hb).2.symm⟩
    | cons d b =>
      rw [List.cons_append, List.cons.injEq] at hb
      exact absurd (hb.2 ▸ List.mem_append_right _ List.mem_cons_self) hx'

/-- A text is as much of its front as of its end, around a middle. -/
theorem take_middle_drop {s : Text} {k : ℕ} (h : 2 * k ≤ s.length) :
    s.take k ++ (s.drop k).take (s.length - 2 * k) ++ s.drop (s.length - k) = s := by
  have hend : s.length - k = k + (s.length - 2 * k) := by omega
  rw [hend, ← List.drop_drop, List.append_assoc, List.take_append_drop, List.take_append_drop]

theorem length_middle (s : Text) (k : ℕ) :
    ((s.drop k).take (s.length - 2 * k)).length = s.length - 2 * k := by
  rw [List.length_take, List.length_drop]
  omega

theorem isSpace_of_isDigit {c : Char} (h : isDigit c = true) : isSpace c = false := by
  have hzeros : ∀ z ∈ zeros, z = 0x30 ∨ 0x660 ≤ z ∧ z ≤ 0x1090 ∨ 0x17e0 ≤ z ∧ z ≤ 0x1c50 ∨
      0xa620 ≤ z := by decide
  rw [isDigit, digit, Option.isSome_map, List.find?_isSome] at h
  obtain ⟨z, hz, hc⟩ := h
  have hrange := hzeros z hz
  simp only [Bool.and_eq_true, decide_eq_true_eq] at hc
  simp only [isSpace, Bool.or_eq_false_iff, Bool.and_eq_false_iff, decide_eq_false_iff_not]
  omega

theorem strip_within (s : Text) : strip s <:+: s :=
  (List.rdropWhile_prefix _ _).isInfix.trans (List.dropWhile_suffix _).isInfix

/-- A text without whitespace around it. -/
theorem strip_of_ends {s : Text} (hhead : ∀ c ∈ s.head?, isSpace c = false)
    (hend : rstrip s = s) : strip s = s := by
  have hdrop : s.dropWhile isSpace = s := by
    cases s with
    | nil => rfl
    | cons c s => exact List.dropWhile_cons_of_neg (by simp [hhead c rfl])
  unfold strip
  rw [hdrop]
  exact hend

theorem strip_idempotent (s : Text) : strip (strip s) = strip s := by
  refine strip_of_ends (fun c hc => ?_) (List.rdropWhile_idempotent _ _)
  obtain ⟨t, ht⟩ := List.head?_eq_some_iff.1 hc
  -- the text begins with what its whitespace is followed by
  obtain ⟨u, hu⟩ := List.rdropWhile_prefix isSpace (s.dropWhile isSpace)
  have hstrip : (s.dropWhile isSpace).rdropWhile isSpace = c :: t := ht
  rw [hstrip] at hu
  have hne : s.dropWhile isSpace ≠ [] := by
    rw [← hu]
    exact List.cons_ne_nil _ _
  have hnot := List.head_dropWhile_not isSpace hne
  simpa only [← hu, List.cons_append, List.head_cons] using hnot

theorem rstrip_append {s : Text} (hs : rstrip s ≠ []) (r : Text) :
    rstrip (r ++ s) = r ++ rstrip s := by
  have hrev : s.reverse.dropWhile isSpace ≠ [] := fun hnil => hs <| by
    rw [rstrip, List.rdropWhile, hnil]
    rfl
  rw [rstrip, rstrip, List.rdropWhile, List.rdropWhile, List.reverse_append, List.dropWhile_append,
    if_neg (by simpa using hrev), List.reverse_append, List.reverse_reverse]

theorem rstrip_append_of_blank {s : Text} (hs : ∀ c ∈ s, isSpace c = true) (r : Text) :
    rstrip (r ++ s) = rstrip r := by
  rw [rstrip, rstrip, List.rdropWhile, List.rdropWhile, List.reverse_append,
    List.dropWhile_append_of_pos fun c hc => hs c (List.mem_reverse.1 hc)]

theorem strip_append_of_blank {s : Text} (hs : ∀ c ∈ s, isSpace c = true) (r : Text) :
    strip (r ++ s) = strip r := by
  rw [strip, strip, List.dropWhile_append]
  split
  case isTrue hr =>
    rw [List.isEmpty_iff.1 hr, List.dropWhile_eq_nil_iff.2 hs]
  case isFalse => exact rstrip_append_of_blank hs _

theorem rstrip_eq_nil {s : Text} : rstrip s = [] ↔ ∀ c ∈ s, isSpace c = true :=
  List.rdropWhile_eq_nil_iff

theorem strip_of_noSpace {s : Text} (h : ∀ c ∈ s, isSpace c = false) : strip s = s := by
  refine strip_of_ends (fun c hc => h c (List.mem_of_mem_head? hc)) ?_
  rw [rstrip, List.rdropWhile_eq_self_iff]
  exact fun hne => by simp [h _ (List.getLast_mem hne)]

end Text

end ResidentCrm
