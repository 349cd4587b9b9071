import ResidentCrm.Lib.Text
import Mathlib.Data.List.Perm.Basic

/-!
# The text of records

`json.dumps(records, sort_keys=True, separators=(",", ":"))` of a list of flat dicts. A way of
writing is `Legible` before some characters where a text that continues with one of them tells what
is written first, and what follows it. Everything written here is, so the text tells the records
(`dumps_injective`).
-/

namespace ResidentCrm

universe u v

/-- The text is empty, or its first character is one of these. -/
def StartsIn (p : Char → Prop) (s : Text) : Prop := ∀ c ∈ s.head?, p c

@[simp] theorem startsIn_nil {p : Char → Prop} : StartsIn p [] := nofun

@[simp] theorem startsIn_cons {p : Char → Prop} {c : Char} {s : Text} :
    StartsIn p (c :: s) ↔ p c := by
  simp [StartsIn]

/-- What is written tells itself from what follows, where that starts in `p`. -/
def Legible {α : Type u} (p : Char → Prop) (f : α → Text) : Prop :=
  ∀ a b s t, StartsIn p s → StartsIn p t → f a ++ s = f b ++ t → a = b ∧ s = t

section

variable {α : Type u} {β : Type v} {p q : Char → Prop} {f : α → Text} {g : β → Text}

theorem Legible.injective (h : Legible p f) : Function.Injective f := by
  intro a b hab
  have := h a b [] [] startsIn_nil startsIn_nil (by rw [hab])
  exact this.1

theorem Legible.mono (h : Legible p f) (hq : ∀ c, q c → p c) : Legible q f := by
  intro a b s t hs ht
  exact h a b s t (fun c hc => hq c (hs c hc)) fun c hc => hq c (ht c hc)

/-- One after another, with a character between them. -/
theorem Legible.pair {c : Char} (hf : Legible p f) (hg : Legible q g) (hc : p c) :
    Legible q fun x : α × β => f x.1 ++ c :: g x.2 := by
  rintro ⟨a, b⟩ ⟨a', b'⟩ s t hs ht h
  simp only [List.append_assoc, List.cons_append] at h
  obtain ⟨rfl, hrest⟩ := hf a a' _ _ (startsIn_cons.2 hc) (startsIn_cons.2 hc) h
  obtain ⟨rfl, rfl⟩ := hg b b' s t hs ht (List.cons.inj hrest).2
  exact ⟨rfl, rfl⟩

/-! ## Lists -/

/-- Each item after a comma, and the closing bracket. -/
def written (close : Char) (f : α → Text) : List α → Text
  | [] => [close]
  | a :: l => ',' :: (f a ++ written close f l)

/-- The items between brackets. -/
def bracketed (start close : Char) (f : α → Text) : List α → Text
  | [] => [start, close]
  | a :: l => start :: (f a ++ written close f l)

theorem startsIn_written {close : Char} (hclose : p close) (hcomma : p ',') (l : List α)
    (s : Text) : StartsIn p (written close f l ++ s) := by
  cases l with
  | nil => exact startsIn_cons.2 hclose
  | cons a l => exact startsIn_cons.2 hcomma

theorem legible_written {close : Char} (hf : Legible p f) (hclose : p close) (hcomma : p ',')
    (hne : close ≠ ',') : Legible (fun _ => True) (written close f) := by
  intro l
  induction l with
  | nil =>
    rintro (_ | ⟨b, l'⟩) s t - - h
    · exact ⟨rfl, (List.cons.inj h).2⟩
    · exact (hne (List.cons.inj h).1).elim
  | cons a l ih =>
    rintro (_ | ⟨b, l'⟩) s t hs ht h
    · exact (hne (List.cons.inj h).1.symm).elim
    · have hitems := (List.cons.inj h).2
      simp only [List.append_eq, List.append_assoc] at hitems
      obtain ⟨rfl, hrest⟩ := hf a b _ _ (startsIn_written hclose hcomma l s)
        (startsIn_written hclose hcomma l' t) hitems
      obtain ⟨rfl, rfl⟩ := ih l' s t hs ht hrest
      exact ⟨rfl, rfl⟩

/-- A list between brackets is legible where its items are, and none of them starts with the closing
bracket. -/
theorem legible_bracketed {start close : Char} (hf : Legible p f) (hclose : p close)
    (hcomma : p ',') (hne : close ≠ ',') (hstart : ∀ a, ∃ c l, f a = c :: l ∧ c ≠ close) :
    Legible (fun _ => True) (bracketed start close f) := by
  have hempty : ∀ a l s t, close :: s ≠ f a ++ written close f l ++ t := by
    intro a l s t h
    obtain ⟨c, l', hfa, hc⟩ := hstart a
    rw [hfa] at h
    exact hc (List.cons.inj h).1.symm
  rintro (_ | ⟨a, l⟩) (_ | ⟨b, l'⟩) s t hs ht h
  · exact ⟨rfl, (List.cons.inj (List.cons.inj h).2).2⟩
  · exact (hempty b l' s t (List.cons.inj h).2).elim
  · exact (hempty a l t s (List.cons.inj h).2.symm).elim
  · have hitems := (List.cons.inj h).2
    simp only [List.append_eq, List.append_assoc] at hitems
    obtain ⟨rfl, hrest⟩ := hf a b _ _ (startsIn_written hclose hcomma l s)
      (startsIn_written hclose hcomma l' t) hitems
    obtain ⟨rfl, rfl⟩ := legible_written hf hclose hcomma hne l l' s t hs ht hrest
    exact ⟨rfl, rfl⟩

end

/-! ## Strings -/

/-- A digit of a hexadecimal number. -/
def hexDigit (n : ℕ) : Char := Char.ofNat (if n < 10 then 48 + n else 87 + n)

/-- `\u` and four digits. -/
def hexEscape (n : ℕ) : Text :=
  ['\\', 'u', hexDigit (n / 4096), hexDigit (n / 256 % 16), hexDigit (n / 16 % 16),
    hexDigit (n % 16)]

/-- A character between quotes: `\"`, `\\`, the short escapes, printable ASCII as it is, and all
else by its UTF-16 code units. -/
def escape (c : Char) : Text :=
  if c = '"' then ['\\', '"']
  else if c = '\\' then ['\\', '\\']
  else if c = '\n' then ['\\', 'n']
  else if c = '\r' then ['\\', 'r']
  else if c = '\t' then ['\\', 't']
  else if c.toNat = 8 then ['\\', 'b']
  else if c.toNat = 12 then ['\\', 'f']
  else if 32 ≤ c.toNat ∧ c.toNat ≤ 126 then [c]
  else if c.toNat < 65536 then hexEscape c.toNat
  else hexEscape (55296 + (c.toNat - 65536) / 1024) ++ hexEscape (56320 + (c.toNat - 65536) % 1024)

def hexValue (c : Char) : ℕ := if c.toNat < 58 then c.toNat - 48 else c.toNat - 87

def hexNumber (a b c d : Char) : ℕ :=
  4096 * hexValue a + 256 * hexValue b + 16 * hexValue c + hexValue d

def unescapeShort (c : Char) : Char :=
  if c = 'n' then '\n'
  else if c = 'r' then '\r'
  else if c = 't' then '\t'
  else if c = 'b' then Char.ofNat 8
  else if c = 'f' then Char.ofNat 12
  else c

/-- The character an escaped text starts with, and what follows it. -/
def unescape : Text → Option (Char × Text)
  | '\\' :: 'u' :: a :: b :: c :: d :: s =>
    let n := hexNumber a b c d
    if 55296 ≤ n ∧ n < 56320 then match s with
      | _ :: _ :: a' :: b' :: c' :: d' :: s' =>
        some (Char.ofNat (65536 + 1024 * (n - 55296) + (hexNumber a' b' c' d' - 56320)), s')
      | _ => none
    else some (Char.ofNat n, s)
  | '\\' :: c :: s => some (unescapeShort c, s)
  | c :: s => some (c, s)
  | [] => none

theorem hexValue_hexDigit : ∀ n < 16, hexValue (hexDigit n) = n := by decide

theorem hexNumber_hexEscape {n : ℕ} (h : n < 65536) :
    hexNumber (hexDigit (n / 4096)) (hexDigit (n / 256 % 16)) (hexDigit (n / 16 % 16))
      (hexDigit (n % 16)) = n := by
  unfold hexNumber
  rw [hexValue_hexDigit _ (by omega), hexValue_hexDigit _ (by omega),
    hexValue_hexDigit _ (by omega), hexValue_hexDigit _ (by omega)]
  omega

theorem toNat_cases (c : Char) : c.toNat < 55296 ∨ 57343 < c.toNat ∧ c.toNat < 1114112 := c.valid

/-- The characters with an escape of their own, and the letter of each. -/
def shortEscapes : List (Char × Char) :=
  [('"', '"'), ('\\', '\\'), ('\n', 'n'), ('\r', 'r'), ('\t', 't'), (Char.ofNat 8, 'b'),
    (Char.ofNat 12, 'f')]

/-- A character's escape of its own, or else the rest. -/
def shortOr (c : Char) (rest : Text) : Text :=
  if c = '"' then ['\\', '"']
  else if c = '\\' then ['\\', '\\']
  else if c = '\n' then ['\\', 'n']
  else if c = '\r' then ['\\', 'r']
  else if c = '\t' then ['\\', 't']
  else if c.toNat = 8 then ['\\', 'b']
  else if c.toNat = 12 then ['\\', 'f']
  else rest

theorem shortOr_cases (c : Char) (rest : Text) :
    (∃ e, (c, e) ∈ shortEscapes ∧ shortOr c rest = ['\\', e]) ∨
      c ≠ '"' ∧ c ≠ '\\' ∧ shortOr c rest = rest := by
  have hnum : ∀ {n : ℕ}, c.toNat = n → c = Char.ofNat n := fun h => by rw [← h, Char.ofNat_toNat]
  generalize ht : shortOr c rest = t
  rw [shortOr] at ht
  by_cases hquote : c = '"'
  · rw [if_pos hquote] at ht
    exact .inl ⟨_, by rw [hquote]; decide, ht.symm⟩
  rw [if_neg hquote] at ht
  by_cases hback : c = '\\'
  · rw [if_pos hback] at ht
    exact .inl ⟨_, by rw [hback]; decide, ht.symm⟩
  rw [if_neg hback] at ht
  by_cases hn : c = '\n'
  · rw [if_pos hn] at ht
    exact .inl ⟨_, by rw [hn]; decide, ht.symm⟩
  rw [if_neg hn] at ht
  by_cases hr : c = '\r'
  · rw [if_pos hr] at ht
    exact .inl ⟨_, by rw [hr]; decide, ht.symm⟩
  rw [if_neg hr] at ht
  by_cases htab : c = '\t'
  · rw [if_pos htab] at ht
    exact .inl ⟨_, by rw [htab]; decide, ht.symm⟩
  rw [if_neg htab] at ht
  by_cases hb : c.toNat = 8
  · rw [if_pos hb] at ht
    exact .inl ⟨_, by rw [hnum hb]; decide, ht.symm⟩
  rw [if_neg hb] at ht
  by_cases hf : c.toNat = 12
  · rw [if_pos hf] at ht
    exact .inl ⟨_, by rw [hnum hf]; decide, ht.symm⟩
  rw [if_neg hf] at ht
  exact .inr ⟨hquote, hback, ht.symm⟩

theorem escape_cases (c : Char) :
    (∃ e, (c, e) ∈ shortEscapes ∧ escape c = ['\\', e]) ∨
    (c ≠ '"' ∧ c ≠ '\\' ∧ 32 ≤ c.toNat ∧ escape c = [c]) ∨
    (c.toNat < 65536 ∧ escape c = hexEscape c.toNat) ∨
    65536 ≤ c.toNat ∧ escape c = hexEscape (55296 + (c.toNat - 65536) / 1024) ++
      hexEscape (56320 + (c.toNat - 65536) % 1024) := by
  rcases shortOr_cases c (if 32 ≤ c.toNat ∧ c.toNat ≤ 126 then [c]
    else if c.toNat < 65536 then hexEscape c.toNat
    else hexEscape (55296 + (c.toNat - 65536) / 1024) ++
      hexEscape (56320 + (c.toNat - 65536) % 1024)) with h | ⟨hquote, hback, hc⟩
  · exact .inl h
  change escape c = _ at hc
  split_ifs at hc with hplain hbmp
  · exact .inr (.inl ⟨hquote, hback, hplain.1, hc⟩)
  · exact .inr (.inr (.inl ⟨hbmp, hc⟩))
  · exact .inr (.inr (.inr ⟨Nat.le_of_not_lt hbmp, hc⟩))

theorem unescape_short : ∀ p ∈ shortEscapes, ∀ s, unescape ('\\' :: p.2 :: s) = some (p.1, s) := by
  intro p hp s
  simp only [shortEscapes, List.mem_cons, List.not_mem_nil, or_false] at hp
  rcases hp with rfl | rfl | rfl | rfl | rfl | rfl | rfl <;> rfl

/-- **An escaped character can be read back.** -/
theorem unescape_escape (c : Char) (s : Text) : unescape (escape c ++ s) = some (c, s) := by
  have hcases := toNat_cases c
  rcases escape_cases c with ⟨e, he, hc⟩ | ⟨-, hback, -, hc⟩ | ⟨hbmp, hc⟩ | ⟨hbmp, hc⟩
  · rw [hc]
    exact unescape_short _ he s
  · rw [hc, List.singleton_append, unescape.eq_def]
    split <;> simp_all
  · have hnum := hexNumber_hexEscape hbmp
    rw [hc]
    simp only [hexEscape, List.cons_append, List.nil_append, unescape, hnum]
    rw [if_neg (by omega), Char.ofNat_toNat]
  · have hhigh := hexNumber_hexEscape (n := 55296 + (c.toNat - 65536) / 1024) (by omega)
    have hlow := hexNumber_hexEscape (n := 56320 + (c.toNat - 65536) % 1024) (by omega)
    rw [hc]
    simp only [hexEscape, List.cons_append, List.nil_append, unescape, hhigh, hlow]
    rw [if_pos (by omega)]
    have hback : 65536 + 1024 * (55296 + (c.toNat - 65536) / 1024 - 55296) +
        (56320 + (c.toNat - 65536) % 1024 - 56320) = c.toNat := by omega
    rw [hback, Char.ofNat_toNat]

theorem legible_escape {p : Char → Prop} : Legible p escape := by
  intro c d s t _ _ h
  have hread := unescape_escape c s
  rw [h, unescape_escape d t] at hread
  obtain ⟨rfl, rfl⟩ := Prod.mk.inj (Option.some.inj hread)
  exact ⟨rfl, rfl⟩

theorem escape_eq_cons (c : Char) : ∃ d s, escape c = d :: s ∧ d ≠ '"' := by
  rcases escape_cases c with ⟨e, -, hc⟩ | ⟨hquote, -, -, hc⟩ | ⟨-, hc⟩ | ⟨-, hc⟩
  case inr.inl => exact ⟨c, [], hc, hquote⟩
  all_goals exact ⟨'\\', _, hc, by decide⟩

/-- A string between quotes. -/
def quote (s : Text) : Text := '"' :: (s.flatMap escape ++ ['"'])

theorem legible_quote {p : Char → Prop} : Legible p quote := by
  intro a
  induction a with
  | nil =>
    rintro (_ | ⟨d, b⟩) s t - - h
    · exact ⟨rfl, (List.cons.inj (List.cons.inj h).2).2⟩
    · obtain ⟨e, l, hd, hne⟩ := escape_eq_cons d
      have hrest := (List.cons.inj h).2
      rw [List.flatMap_cons, hd] at hrest
      exact (hne (List.cons.inj hrest).1.symm).elim
  | cons c a ih =>
    rintro (_ | ⟨d, b⟩) s t hs ht h
    · obtain ⟨e, l, hc, hne⟩ := escape_eq_cons c
      have hrest := (List.cons.inj h).2
      rw [List.flatMap_cons, hc] at hrest
      exact (hne (List.cons.inj hrest).1).elim
    · have hrest := (List.cons.inj h).2
      simp only [List.append_eq, List.flatMap_cons, List.append_assoc] at hrest
      obtain ⟨rfl, hrest⟩ := legible_escape (p := fun _ => True) c d _ _ (fun _ _ => trivial)
        (fun _ _ => trivial) hrest
      obtain ⟨rfl, rfl⟩ := ih b s t hs ht (by simpa [quote] using hrest)
      exact ⟨rfl, rfl⟩

/-! ## Records -/

/-- A character of a number. -/
def isNumeric (c : Char) : Bool :=
  c.isDigit || c = '-' || c = '+' || c = '.' || c = 'e' || c = 'E'

theorem isNumeric_plain {c : Char} (h : isNumeric c = true) : 32 ≤ c.toNat ∧ c.toNat < 127 := by
  simp only [isNumeric, Bool.or_eq_true, decide_eq_true_eq] at h
  rcases h with ((((h | rfl) | rfl) | rfl) | rfl) | rfl
  · simp only [Char.isDigit, Bool.and_eq_true, decide_eq_true_eq, ge_iff_le, UInt32.le_iff_toNat_le]
      at h
    have hlow : 48 ≤ c.toNat := h.1
    have hhigh : c.toNat ≤ 57 := h.2
    omega
  all_goals decide

/-- A number as it is written, `int.__repr__`, or a finite float in one of its spellings. -/
structure Number where
  repr : Text
  ne_nil : repr ≠ []
  numeric : ∀ c ∈ repr, isNumeric c
deriving DecidableEq

/-- A float that is not finite. -/
inductive NonFinite where
  | nan
  | infinity
  | negInfinity
deriving DecidableEq

def NonFinite.repr : NonFinite → Text
  | .nan => "NaN".toList
  | .infinity => "Infinity".toList
  | .negInfinity => "-Infinity".toList

@[simp] theorem NonFinite.repr_nan : NonFinite.nan.repr = ['N', 'a', 'N'] := rfl

@[simp] theorem NonFinite.repr_infinity :
    NonFinite.infinity.repr = ['I', 'n', 'f', 'i', 'n', 'i', 't', 'y'] := rfl

@[simp] theorem NonFinite.repr_negInfinity :
    NonFinite.negInfinity.repr = '-' :: NonFinite.infinity.repr := rfl

/-- `str` of an `int` that is not negative. -/
def Text.ofNat (n : ℕ) : Text := Nat.toDigits 10 n

theorem Text.digit_of_ascii {c : Char} (h : c.isDigit = true) :
    Text.digit c = some (c.toNat - 48) := by
  have hrange : 48 ≤ c.toNat ∧ c.toNat ≤ 57 := by
    simpa [Char.isDigit, UInt32.le_iff_toNat_le, ← Char.toNat_val] using h
  rw [Text.digit, Text.zeros, List.find?_cons_of_pos]
  · rfl
  · simp only [Bool.and_eq_true, decide_eq_true_eq]
    omega

theorem Text.isDigit_ofNat {n : ℕ} {c : Char} (h : c ∈ Text.ofNat n) : Text.isDigit c = true := by
  rw [Text.isDigit, Text.digit_of_ascii (Nat.isDigit_of_mem_toDigits (by decide) (by decide) h)]
  rfl

/-- `int(str(n))` -/
theorem Text.toNat_ofNat (n : ℕ) : Text.toNat (Text.ofNat n) = n := by
  have hvalue : ∀ (s : Text) (k : ℕ), (∀ c ∈ s, c.isDigit = true) →
      s.foldl (fun k c => 10 * k + (Text.digit c).getD 0) k = Nat.ofDigitChars 10 s k := by
    intro s
    induction s with
    | nil => exact fun k _ => Nat.ofDigitChars_nil.symm
    | cons c s ih =>
      intro k hs
      rw [List.foldl_cons, Nat.ofDigitChars_cons, Text.digit_of_ascii (hs c List.mem_cons_self)]
      exact ih _ fun d hd => hs d (List.mem_cons_of_mem _ hd)
  rw [Text.toNat, Text.ofNat, hvalue _ 0 fun c hc =>
    Nat.isDigit_of_mem_toDigits (by decide) (by decide) hc]
  exact Nat.ofDigitChars_ten_toDigits

theorem Text.ofNat_injective {m n : ℕ} (h : Text.ofNat m = Text.ofNat n) : m = n := by
  rw [← Text.toNat_ofNat m, h, Text.toNat_ofNat]

def Number.ofNat (n : ℕ) : Number where
  repr := Text.ofNat n
  ne_nil := Nat.toDigits_ne_nil
  numeric c hc := by
    have hdigit : c.isDigit := Nat.isDigit_of_mem_toDigits (by decide) (by decide) hc
    simp [isNumeric, hdigit]

/-- The text of a float has a point or an exponent. -/
def isFloatText (s : Text) : Bool := s.any fun c => c = '.' || c = 'e' || c = 'E'

/-- What the text of a number says, but for its sign: the digits from the first one on that is not
0, and where the point stands, counted from there. -/
structure Decimal where
  digits : Text
  point : ℤ

def exponentOf : Text → ℤ
  | '-' :: s => -(Text.toNat s)
  | '+' :: s => Text.toNat s
  | s => Text.toNat s

def decimalOf (s : Text) : Decimal :=
  let s := s.dropWhile (· = '-')
  let mantissa := s.takeWhile fun c => c.isDigit || c = '.'
  let digits := mantissa.filter Char.isDigit
  let exponent := s.drop (mantissa.length + 1)
  { digits := digits.dropWhile (· = '0')
    point := (mantissa.takeWhile Char.isDigit).length - (digits.takeWhile (· = '0')).length +
      exponentOf exponent }

/-- A float that is rounded to an infinity: it is `2 ^ 1024 - 2 ^ 970` at least, which has 309
digits. -/
def overflows (s : Text) : Bool :=
  let d := decimalOf s
  isFloatText s && d.digits ≠ [] && (309 < d.point || d.point = 309 &&
    (2 ^ 1024 - 2 ^ 970) * 10 ^ (d.digits.length - 309) ≤
      Text.toNat d.digits * 10 ^ (309 - d.digits.length))

/-- A zero, or a float that is rounded to one: it is `2 ^ -1075` at most, which has its first digit
324 places after the point. -/
def Number.isZero (n : Number) : Bool :=
  let d := decimalOf n.repr
  d.digits = [] || isFloatText n.repr && (d.point < -323 || d.point = -323 &&
    Text.toNat d.digits * 2 ^ 1075 ≤ 10 ^ (d.digits.length + 323))

inductive Scalar where
  | null
  | bool (b : Bool)
  | number (n : Number)
  | nonFinite (x : NonFinite)
  | string (s : Text)
deriving DecidableEq

def Scalar.dumps : Scalar → Text
  | .null => "null".toList
  | .bool true => "true".toList
  | .bool false => "false".toList
  | .number n => n.repr
  | .nonFinite x => x.repr
  | .string s => quote s

/-- A dict as a value: its items by key. -/
structure Record where
  items : List (Text × Scalar)
  sorted : (items.map Prod.fst).Pairwise (· < ·)
deriving DecidableEq

/-- `dict.get`. -/
def Record.get (r : Record) (key : Text) : Option Scalar := r.items.lookup key

def dumpsItem (item : Text × Scalar) : Text := quote item.1 ++ ':' :: item.2.dumps

def Record.dumps (r : Record) : Text := bracketed '{' '}' dumpsItem r.items

/-- `json.dumps(records, sort_keys=True, separators=(",", ":"))`. -/
def dumps (records : List Record) : Text := bracketed '[' ']' Record.dumps records

theorem legible_number : Legible (fun c => ¬ isNumeric c) Number.repr := by
  have hsplit : ∀ (n : Number) (s : Text), StartsIn (fun c => ¬ isNumeric c) s →
      (n.repr ++ s).takeWhile isNumeric = n.repr := by
    intro n s hs
    rw [List.takeWhile_append_of_pos n.numeric]
    cases s with
    | nil => simp
    | cons c s => rw [List.takeWhile_cons_of_neg (startsIn_cons.1 hs), List.append_nil]
  intro a b s t hs ht h
  have hrepr : a.repr = b.repr := by rw [← hsplit a s hs, h, hsplit b t ht]
  refine ⟨?_, ?_⟩
  · cases a
    cases b
    simpa using hrepr
  · rw [hrepr] at h
    exact List.append_cancel_left h

/-- The first character tells what is no number from what is one, `-Infinity` aside. -/
theorem Scalar.dumps_eq_cons (v : Scalar) : ∃ c l, v.dumps = c :: l ∧ match v with
    | .null => c = 'n'
    | .bool true => c = 't'
    | .bool false => c = 'f'
    | .number _ => isNumeric c
    | .nonFinite .nan => c = 'N'
    | .nonFinite .infinity => c = 'I'
    | .nonFinite .negInfinity => c = '-'
    | .string _ => c = '"' := by
  cases v with
  | null => exact ⟨_, _, rfl, rfl⟩
  | bool b => cases b <;> exact ⟨_, _, rfl, rfl⟩
  | number n =>
    obtain ⟨c, l, hrepr⟩ := List.exists_cons_of_ne_nil n.ne_nil
    exact ⟨c, l, hrepr, n.numeric c (by rw [hrepr]; exact List.mem_cons_self)⟩
  | nonFinite x => cases x <;> exact ⟨_, _, rfl, rfl⟩
  | string s => exact ⟨_, _, rfl, rfl⟩

/-- What cannot go on a number, and not on a sign either. -/
def EndsScalar (c : Char) : Prop := ¬ isNumeric c ∧ c ≠ 'I'

/-- After the sign of `-Infinity` no number goes on, and none ends. -/
theorem negInfinity_ne_number {n : Number} {s t : Text} (hs : StartsIn EndsScalar s) :
    n.repr ++ s ≠ NonFinite.negInfinity.repr ++ t := by
  intro h
  have htake : (n.repr ++ s).takeWhile isNumeric = n.repr := by
    rw [List.takeWhile_append_of_pos n.numeric]
    cases s with
    | nil => simp
    | cons c s => rw [List.takeWhile_cons_of_neg (startsIn_cons.1 hs).1, List.append_nil]
  have hsign : n.repr = ['-'] := by
    rw [← htake, h]
    rfl
  rw [hsign] at h
  have hinf : s = NonFinite.infinity.repr ++ t := (List.cons.inj h).2
  rw [hinf] at hs
  exact (startsIn_cons.1 hs).2 rfl

theorem legible_scalar : Legible EndsScalar Scalar.dumps := by
  intro v w s t hs ht h
  obtain ⟨c, l, hv, hc⟩ := v.dumps_eq_cons
  obtain ⟨d, l', hw, hd⟩ := w.dumps_eq_cons
  have hcd : c = d := by
    rw [hv, hw] at h
    exact (List.cons.inj h).1
  subst hcd
  rcases v with _ | (_ | _) | n | (_ | _ | _) | a <;>
    rcases w with _ | (_ | _) | m | (_ | _ | _) | b
  case null.null => exact ⟨rfl, List.append_cancel_left h⟩
  case bool.false.bool.false => exact ⟨rfl, List.append_cancel_left h⟩
  case bool.true.bool.true => exact ⟨rfl, List.append_cancel_left h⟩
  case number.number =>
    obtain ⟨rfl, rfl⟩ := legible_number.mono (fun _ => And.left) n m s t hs ht h
    exact ⟨rfl, rfl⟩
  case number.nonFinite.negInfinity => exact absurd h (negInfinity_ne_number hs)
  case nonFinite.negInfinity.number => exact absurd h.symm (negInfinity_ne_number ht)
  case nonFinite.nan.nonFinite.nan => exact ⟨rfl, List.append_cancel_left h⟩
  case nonFinite.infinity.nonFinite.infinity => exact ⟨rfl, List.append_cancel_left h⟩
  case nonFinite.negInfinity.nonFinite.negInfinity => exact ⟨rfl, List.append_cancel_left h⟩
  case string.string =>
    obtain ⟨rfl, rfl⟩ := legible_quote a b s t hs ht h
    exact ⟨rfl, rfl⟩
  -- Elsewhere the first characters differ; at most one of the two is only known to be of a number.
  all_goals dsimp only at hc hd
  all_goals first
    | subst hc
      exact absurd hd (by decide)
    | subst hd
      exact absurd hc (by decide)

theorem legible_item : Legible EndsScalar dumpsItem :=
  (legible_quote (p := fun _ => True)).pair legible_scalar trivial

theorem legible_record : Legible (fun _ => True) Record.dumps := by
  have hitems : Legible (fun _ => True) (bracketed '{' '}' dumpsItem) :=
    legible_bracketed legible_item ⟨by decide, by decide⟩ ⟨by decide, by decide⟩ (by decide)
      fun item => ⟨_, _, rfl, by decide⟩
  intro a b s t hs ht h
  obtain ⟨hab, rfl⟩ := hitems a.items b.items s t hs ht h
  refine ⟨?_, rfl⟩
  cases a
  cases b
  simpa using hab

theorem Record.dumps_eq_cons (r : Record) : ∃ l, r.dumps = '{' :: l := by
  unfold Record.dumps bracketed
  split <;> exact ⟨_, rfl⟩

/-- **The text of records tells them.** -/
theorem dumps_injective : Function.Injective dumps := by
  have hlist : Legible (fun _ => True) (bracketed '[' ']' Record.dumps) := by
    refine legible_bracketed legible_record trivial trivial (by decide) fun r => ?_
    obtain ⟨l, hl⟩ := r.dumps_eq_cons
    exact ⟨'{', l, hl, by decide⟩
  exact hlist.injective

/-! ## Values -/

/-- A JSON value. -/
inductive Json where
  | scalar (v : Scalar)
  | array (l : List Json)
  | object (items : List (Text × Json))

/-- `value.get(key, {})`, which raises where the value is not a dict. -/
def Json.get : Json → Text → Option Json
  | .object items, key => some ((items.lookup key).getD (.object []))
  | _, _ => none

/-- `value.get(key)` where the value is a dict, and null where it is not. -/
def Json.item (key : Text) : Json → Json
  | .object items => (items.lookup key).getD (.scalar .null)
  | _ => .scalar .null

/-- `key in value`, of a dict. -/
def Json.hasKey (key : Text) : Json → Bool
  | .object items => (items.lookup key).isSome
  | _ => false

def Json.isNull : Json → Bool
  | .scalar .null => true
  | _ => false

def Json.isObject : Json → Bool
  | .object _ => true
  | _ => false

def Json.string : Json → Option Text
  | .scalar (.string s) => some s
  | _ => none

/-- `not value`. -/
def Json.isFalsy : Json → Bool
  | .scalar .null => true
  | .scalar (.bool b) => !b
  | .scalar (.number n) => n.isZero
  | .scalar (.nonFinite _) => false
  | .scalar (.string s) => s.isEmpty
  | .array l => l.isEmpty
  | .object items => items.isEmpty

def Json.text (s : Text) : Json := .scalar (.string s)

def Json.nat (n : ℕ) : Json := .scalar (.number (.ofNat n))

/-- A text, or null. -/
def Json.optional (s : Option Text) : Json := .scalar (s.elim .null .string)

def Json.isText (t : Text) : Json → Bool
  | .scalar (.string s) => s = t
  | _ => false

end ResidentCrm
