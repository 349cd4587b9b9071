import ResidentCrm.Lib.Text

/-!
# UTF-8

`bytes.decode("utf-8", errors="replace")` as a decoder that is fed a byte at a time. Of an
ill-formed sequence the bytes before the first that does not go on with it become one replacement
character. Decoding piece by piece is decoding the whole where no piece ends in a sequence that the
next one goes on with (`decode_append`), and gives more characters elsewhere
(`length_decode_append_lt`).
-/

namespace ResidentCrm.Utf8

abbrev Bytes := List UInt8

/-- What stands for bytes that are no UTF-8. -/
def replacement : Char := Char.ofNat 0xfffd

/-- A sequence that has begun: how many bytes are to come after the next one, what the next one may
be, and the bits so far. -/
structure Begun where
  more : ℕ
  low : ℕ
  high : ℕ
  bits : ℕ
  low_le : 0x80 ≤ low
  high_le : high ≤ 0xbf
  bits_pos : 0 < if more = 0 then bits else 64 * bits + (low - 0x80)
deriving DecidableEq

/-- A first byte: the character that it is, or the sequence that it begins. -/
def first (b : UInt8) : Text × Option Begun :=
  if b.toNat < 0x80 then ([Char.ofNat b.toNat], none)
  else if hlow : b.toNat < 0xc2 then ([replacement], none)
  else if htwo : b.toNat < 0xe0 then
    ([], some
      { more := 0, low := 0x80, high := 0xbf, bits := b.toNat - 0xc0
        low_le := le_refl _, high_le := le_refl _
        bits_pos := by
          rw [if_pos rfl]
          omega })
  else if hthree : b.toNat < 0xf0 then
    ([], some
      { more := 1, low := if b.toNat = 0xe0 then 0xa0 else 0x80
        high := if b.toNat = 0xed then 0x9f else 0xbf, bits := b.toNat - 0xe0
        low_le := by split <;> omega
        high_le := by split <;> omega
        bits_pos := by
          rw [if_neg Nat.one_ne_zero]
          split <;> omega })
  else if b.toNat < 0xf5 then
    ([], some
      { more := 2, low := if b.toNat = 0xf0 then 0x90 else 0x80
        high := if b.toNat = 0xf4 then 0x8f else 0xbf, bits := b.toNat - 0xf0
        low_le := by split <;> omega
        high_le := by split <;> omega
        bits_pos := by
          rw [if_neg (by decide)]
          split <;> omega })
  else ([replacement], none)

namespace Begun

variable (s : Begun)

/-- The byte goes on with the sequence. -/
def Fits (b : UInt8) : Prop := s.low ≤ b.toNat ∧ b.toNat ≤ s.high

instance (b : UInt8) : Decidable (s.Fits b) := inferInstanceAs (Decidable (_ ∧ _))

/-- The bits with those of a further byte. -/
def value (b : UInt8) : ℕ := 64 * s.bits + (b.toNat - 0x80)

theorem value_pos {b : UInt8} (h : s.Fits b) : 0 < s.value b := by
  have hbits := s.bits_pos
  have hlow := h.1
  unfold value
  split at hbits <;> omega

/-- The sequence after a byte that goes on with it. -/
def goOn (b : UInt8) (h : s.Fits b) : Begun where
  more := s.more - 1
  low := 0x80
  high := 0xbf
  bits := s.value b
  low_le := le_refl _
  high_le := le_refl _
  bits_pos := by
    have hpos := s.value_pos h
    split <;> omega

end Begun

/-- A byte after what came before. -/
def next : Option Begun → UInt8 → Text × Option Begun
  | none, b => first b
  | some s, b =>
    if h : s.Fits b then
      if s.more = 0 then ([Char.ofNat (s.value b)], none) else ([], some (s.goOn b h))
    else (replacement :: (first b).1, (first b).2)

def feed : Option Begun → Bytes → Text × Option Begun
  | begun, [] => ([], begun)
  | begun, b :: bytes =>
    let (text, begun) := next begun b
    let (rest, begun) := feed begun bytes
    (text ++ rest, begun)

/-- A sequence that the bytes end in. -/
def finish (begun : Option Begun) : Text := if begun.isSome then [replacement] else []

def decodeFrom (begun : Option Begun) (bytes : Bytes) : Text :=
  (feed begun bytes).1 ++ finish (feed begun bytes).2

/-- `bytes.decode("utf-8", errors="replace")` -/
def decode (bytes : Bytes) : Text := decodeFrom none bytes

/-- `text.encode("utf-8")` -/
def encode (text : Text) : Bytes := text.flatMap String.utf8EncodeChar

/-! ## A byte at a time -/

theorem feed_append (begun : Option Begun) (a b : Bytes) :
    feed begun (a ++ b) =
      ((feed begun a).1 ++ (feed (feed begun a).2 b).1, (feed (feed begun a).2 b).2) := by
  induction a generalizing begun with
  | nil => rfl
  | cons c a ih =>
    simp only [List.cons_append, feed]
    rw [ih, List.append_assoc]

theorem decodeFrom_append (begun : Option Begun) (a b : Bytes) :
    decodeFrom begun (a ++ b) = (feed begun a).1 ++ decodeFrom (feed begun a).2 b := by
  rw [decodeFrom, feed_append, decodeFrom, List.append_assoc]

theorem decodeFrom_nil (begun : Option Begun) : decodeFrom begun [] = finish begun := rfl

theorem decodeFrom_cons (begun : Option Begun) (b : UInt8) (bytes : Bytes) :
    decodeFrom begun (b :: bytes) = (next begun b).1 ++ decodeFrom (next begun b).2 bytes := by
  simp only [decodeFrom, feed, List.append_assoc]

theorem next_of_not_fits {s : Begun} {b : UInt8} (h : ¬s.Fits b) :
    next (some s) b = (replacement :: (first b).1, (first b).2) := by rw [next, dif_neg h]

theorem next_last {s : Begun} {b : UInt8} (h : s.Fits b) (hmore : s.more = 0) :
    next (some s) b = ([Char.ofNat (s.value b)], none) := by rw [next, dif_pos h, if_pos hmore]

theorem next_more {s : Begun} {b : UInt8} (h : s.Fits b) (hmore : s.more ≠ 0) :
    next (some s) b = ([], some (s.goOn b h)) := by rw [next, dif_pos h, if_neg hmore]

/-- A byte that goes on with a sequence is no first byte. -/
theorem first_of_fits {s : Begun} {b : UInt8} (h : s.Fits b) :
    first b = ([replacement], none) := by
  have hlow := s.low_le.trans h.1
  have hhigh := h.2.trans s.high_le
  rw [first, if_neg (by omega), dif_pos (by omega)]

/-! ## Lengths -/

/-- The bytes go on with the sequence. -/
def Waits (begun : Option Begun) (bytes : Bytes) : Prop :=
  ∃ s ∈ begun, ∃ b ∈ bytes.head?, s.Fits b

theorem decodeFrom_of_not_waits {begun : Option Begun} {bytes : Bytes} (h : ¬Waits begun bytes) :
    decodeFrom begun bytes = finish begun ++ decode bytes := by
  cases begun with
  | none => rfl
  | some s =>
    cases bytes with
    | nil => rfl
    | cons b bytes =>
      have hfits : ¬s.Fits b := fun hb => h ⟨s, rfl, b, rfl, hb⟩
      rw [decodeFrom_cons, next_of_not_fits hfits, decode, decodeFrom_cons]
      rfl

theorem length_decodeFrom_le (s : Begun) (bytes : Bytes) :
    (decodeFrom (some s) bytes).length ≤ (decode bytes).length + 1 := by
  induction bytes generalizing s with
  | nil =>
    rw [decodeFrom_nil, finish, Option.isSome_some, if_pos rfl, List.length_singleton]
    exact Nat.le_add_left _ _
  | cons b bytes ih =>
    by_cases hfits : s.Fits b
    · rw [decode, decodeFrom_cons, decodeFrom_cons, next, first_of_fits hfits]
      by_cases hmore : s.more = 0
      · rw [next_last hfits hmore]
        simp
      · rw [next_more hfits hmore]
        exact (ih _).trans (Nat.le_succ _)
    · rw [decodeFrom_of_not_waits]
      · rw [List.length_append, Nat.add_comm]
        exact le_refl _
      · rintro ⟨s', hs, b', hb, hfits'⟩
        obtain rfl := Option.some.inj hs
        obtain rfl := Option.some.inj hb
        exact hfits hfits'

theorem length_decodeFrom_of_waits {s : Begun} {bytes : Bytes} (h : Waits (some s) bytes) :
    (decodeFrom (some s) bytes).length ≤ (decode bytes).length := by
  obtain ⟨s', hs, b, hb, hfits⟩ := h
  obtain rfl := Option.some.inj hs
  cases bytes with
  | nil => cases hb
  | cons b' bytes =>
    obtain rfl := Option.some.inj hb
    rw [decode, decodeFrom_cons, decodeFrom_cons, next, first_of_fits hfits]
    by_cases hmore : s.more = 0
    · rw [next_last hfits hmore, List.length_append, List.length_append, List.length_singleton,
        List.length_singleton]
    · rw [next_more hfits hmore, List.nil_append, List.singleton_append, List.length_cons]
      exact length_decodeFrom_le _ _

/-- **In pieces, as a whole**, where the first ends in no sequence that the second goes on with. -/
theorem decode_append {a b : Bytes} (h : ¬Waits (feed none a).2 b) :
    decode (a ++ b) = decode a ++ decode b := by
  rw [decode, decodeFrom_append, decodeFrom_of_not_waits h, ← List.append_assoc]
  rfl

/-- **In pieces there is more** elsewhere. -/
theorem length_decode_append_lt {a b : Bytes} (h : Waits (feed none a).2 b) :
    (decode (a ++ b)).length < (decode a ++ decode b).length := by
  obtain ⟨s, hs, -⟩ := id h
  rw [Option.mem_def] at hs
  have hle := length_decodeFrom_of_waits (hs ▸ h)
  have hfirst : decode a = (feed none a).1 ++ [replacement] := by
    rw [decode, decodeFrom, hs]
    rfl
  rw [decode, decodeFrom_append, hs, hfirst]
  simp only [List.length_append, List.length_singleton]
  omega

/-! ## Line breaks -/

theorem toNat_eq_ten {b : UInt8} : b.toNat = 10 ↔ b = 0x0a := by
  rw [← UInt8.toNat_inj]
  rfl

theorem ofNat_ne_break {n : ℕ} (h : n ≠ 10) : Char.ofNat n ≠ '\n' := by
  intro heq
  by_cases hvalid : n.isValidChar
  · have haux : Char.ofNat n = Char.ofNatAux n hvalid := dif_pos hvalid
    exact h (congrArg Char.toNat (haux.symm.trans heq))
  · have hzero : Char.ofNat n = '\x00' := dif_neg hvalid
    exact absurd (hzero.symm.trans heq) (by decide)

theorem first_break (b : UInt8) : (first b).1.count '\n' = if b = 0x0a then 1 else 0 := by
  have hreplacement : replacement ≠ '\n' := by decide
  unfold first
  by_cases hb : b = 0x0a
  · rw [hb]
    decide
  · have hten : b.toNat ≠ 10 := fun h => hb (toNat_eq_ten.1 h)
    rw [if_neg hb, List.count_eq_zero]
    split
    · exact fun hmem => ofNat_ne_break hten (List.mem_singleton.1 hmem).symm
    split
    · exact fun hmem => hreplacement (List.mem_singleton.1 hmem).symm
    split
    · exact List.not_mem_nil
    split
    · exact List.not_mem_nil
    split
    · exact List.not_mem_nil
    · exact fun hmem => hreplacement (List.mem_singleton.1 hmem).symm

theorem value_last {s : Begun} {b : UInt8} (hmore : s.more = 0) :
    Char.ofNat (s.value b) ≠ '\n' := by
  refine ofNat_ne_break fun hvalue => ?_
  have hbits := s.bits_pos
  rw [if_pos hmore] at hbits
  unfold Begun.value at hvalue
  omega

theorem next_break (begun : Option Begun) (b : UInt8) :
    (next begun b).1.count '\n' = if b = 0x0a then 1 else 0 := by
  have hreplacement : replacement ≠ '\n' := by decide
  cases begun with
  | none => exact first_break b
  | some s =>
    by_cases hfits : s.Fits b
    · have hb : b ≠ 0x0a := by
        rintro rfl
        exact absurd (s.low_le.trans hfits.1) (by decide)
      rw [if_neg hb, List.count_eq_zero]
      by_cases hmore : s.more = 0
      · rw [next_last hfits hmore]
        exact fun hmem => value_last hmore (List.mem_singleton.1 hmem).symm
      · rw [next_more hfits hmore]
        exact List.not_mem_nil
    · rw [next_of_not_fits hfits, List.count_cons_of_ne hreplacement, first_break]

/-- Line breaks are decoded to line breaks, and nothing else is. -/
theorem count_decodeFrom (begun : Option Begun) (bytes : Bytes) :
    (decodeFrom begun bytes).count '\n' = bytes.count 0x0a := by
  induction bytes generalizing begun with
  | nil => cases begun <;> rfl
  | cons b bytes ih =>
    rw [decodeFrom_cons, List.count_append, next_break, ih, List.count_cons, Nat.add_comm]
    simp only [beq_iff_eq]

/-- A sequence begun gives a character, which is no line break. -/
theorem decodeFrom_begun (s : Begun) (bytes : Bytes) :
    ∃ c text, decodeFrom (some s) bytes = c :: text ∧ c ≠ '\n' := by
  induction bytes generalizing s with
  | nil => exact ⟨replacement, [], rfl, by decide⟩
  | cons b bytes ih =>
    rw [decodeFrom_cons]
    by_cases hfits : s.Fits b
    · by_cases hmore : s.more = 0
      · rw [next_last hfits hmore]
        exact ⟨_, _, rfl, value_last hmore⟩
      · rw [next_more hfits hmore]
        exact ih _
    · rw [next_of_not_fits hfits]
      exact ⟨replacement, _, rfl, by decide⟩

/-- More bytes give no fewer characters. -/
theorem length_decode_le (a b : Bytes) : (decode a).length ≤ (decode (a ++ b)).length := by
  rw [decode, decode, decodeFrom_append, decodeFrom, List.length_append, List.length_append]
  refine Nat.add_le_add_left ?_ _
  cases hbegun : (feed none a).2 with
  | none => exact Nat.zero_le _
  | some s =>
    obtain ⟨c, text, heq, -⟩ := decodeFrom_begun s b
    rw [heq]
    exact Nat.succ_le_succ (Nat.zero_le _)

theorem first_ne_nil {b : UInt8} {text : Text} (h : first b = (text, none)) : text ≠ [] := by
  unfold first at h
  split at h
  · exact (Prod.mk.inj h).1 ▸ List.cons_ne_nil _ _
  split at h
  · exact (Prod.mk.inj h).1 ▸ List.cons_ne_nil _ _
  split at h
  · cases h
  split at h
  · cases h
  split at h
  · cases h
  · exact (Prod.mk.inj h).1 ▸ List.cons_ne_nil _ _

theorem decodeFrom_ne_nil (begun : Option Begun) {bytes : Bytes} (h : bytes ≠ []) :
    decodeFrom begun bytes ≠ [] := by
  cases begun with
  | some s =>
    obtain ⟨c, text, heq, -⟩ := decodeFrom_begun s bytes
    rw [heq]
    exact List.cons_ne_nil _ _
  | none =>
    obtain ⟨b, bytes, rfl⟩ := List.exists_cons_of_ne_nil h
    rw [decodeFrom_cons, next]
    rcases hfirst : first b with ⟨text, begun⟩
    cases begun with
    | none => exact List.append_ne_nil_of_left_ne_nil (first_ne_nil hfirst) _
    | some s =>
      obtain ⟨c, rest, heq, -⟩ := decodeFrom_begun s bytes
      rw [heq]
      exact List.append_ne_nil_of_right_ne_nil _ (List.cons_ne_nil _ _)

/-- A text ends in a line break where its bytes do. -/
theorem getLast?_decode (bytes : Bytes) :
    (decode bytes).getLast? = some '\n' ↔ bytes.getLast? = some 0x0a := by
  rcases List.eq_nil_or_concat bytes with rfl | ⟨earlier, b, rfl⟩
  · exact iff_of_false nofun nofun
  have hne : decodeFrom (feed none earlier).2 [b] ≠ [] :=
    decodeFrom_ne_nil _ (List.cons_ne_nil _ _)
  have hcount := count_decodeFrom (feed none earlier).2 [b]
  rw [List.concat_eq_append, decode, decodeFrom_append, List.getLast?_append_of_ne_nil _ hne,
    List.getLast?_concat, Option.some.injEq]
  constructor
  · intro hlast
    by_contra hb
    rw [List.count_singleton, if_neg (by simpa using hb), List.count_eq_zero] at hcount
    exact hcount (List.mem_of_getLast? hlast)
  · rintro rfl
    have hfirst : first 0x0a = (['\n'], none) := by decide
    have hbegun : ∀ s : Begun, ¬s.Fits 0x0a := fun s hfits =>
      absurd (s.low_le.trans hfits.1) (by decide)
    rw [decodeFrom_cons]
    cases (feed none earlier).2 with
    | none =>
      rw [next, hfirst]
      rfl
    | some s =>
      rw [next_of_not_fits (hbegun s), hfirst]
      rfl

/-! ## Many pieces -/

/-- No piece ends in a sequence that the next one goes on with. -/
def Seamless (pieces : List Bytes) : Prop := pieces.IsChain fun a b => ¬Waits (feed none a).2 b

theorem waits_append {begun : Option Begun} {a : Bytes} (h : a ≠ []) (b : Bytes) :
    Waits begun (a ++ b) ↔ Waits begun a := by
  unfold Waits
  rw [List.head?_append_of_ne_nil _ h]

theorem decode_flatten {pieces : List Bytes} (hne : ∀ piece ∈ pieces, piece ≠ []) :
    (Seamless pieces → pieces.flatMap decode = decode pieces.flatten) ∧
      (¬Seamless pieces → (decode pieces.flatten).length < (pieces.flatMap decode).length) := by
  induction pieces with
  | nil => exact ⟨fun _ => rfl, fun h => absurd .nil h⟩
  | cons a pieces ih =>
    obtain ⟨hsame, hmore⟩ := ih fun piece hpiece => hne piece (List.mem_cons_of_mem _ hpiece)
    cases pieces with
    | nil =>
      rw [List.flatMap_singleton, List.flatten_singleton]
      exact ⟨fun _ => rfl, fun h => absurd (.singleton a) h⟩
    | cons b pieces =>
      have hb : b ≠ [] := hne b (by simp)
      have hchain : Seamless (a :: b :: pieces) ↔
          ¬Waits (feed none a).2 (b :: pieces).flatten ∧ Seamless (b :: pieces) := by
        rw [List.flatten_cons, waits_append hb]
        exact List.isChain_cons_cons
      rw [List.flatMap_cons, List.flatten_cons, hchain]
      constructor
      · rintro ⟨hwaits, hseamless⟩
        rw [decode_append hwaits, hsame hseamless]
      · intro hnot
        by_cases hwaits : Waits (feed none a).2 (b :: pieces).flatten
        · refine (length_decode_append_lt hwaits).trans_le ?_
          rw [List.length_append, List.length_append]
          refine Nat.add_le_add_left ?_ _
          by_cases hseamless : Seamless (b :: pieces)
          · exact (congrArg List.length (hsame hseamless)).ge
          · exact (hmore hseamless).le
        · rw [decode_append hwaits, List.length_append, List.length_append]
          exact Nat.add_lt_add_left (hmore fun h => hnot ⟨hwaits, h⟩) _

theorem count_flatMap_decode (pieces : List Bytes) :
    (pieces.flatMap decode).count '\n' = pieces.flatten.count 0x0a := by
  induction pieces with
  | nil => rfl
  | cons piece pieces ih =>
    rw [List.flatMap_cons, List.flatten_cons, List.count_append, List.count_append, ih, decode,
      count_decodeFrom]

/-- Further bytes that give no further character hold no line break. -/
theorem count_of_length_eq {a b : Bytes} (h : (decode (a ++ b)).length = (decode a).length) :
    b.count 0x0a = 0 := by
  have hwhole : decode a = (feed none a).1 ++ finish (feed none a).2 := rfl
  rw [hwhole, decode, decodeFrom_append, List.length_append, List.length_append,
    Nat.add_left_cancel_iff] at h
  rw [← count_decodeFrom (feed none a).2]
  cases hbegun : (feed none a).2 with
  | none =>
    rw [hbegun] at h
    rw [List.length_eq_zero_iff.1 h]
    rfl
  | some s =>
    obtain ⟨c, text, heq, hc⟩ := decodeFrom_begun s b
    rw [hbegun, heq, List.length_cons] at h
    have htext : text = [] := List.length_eq_zero_iff.1 (Nat.succ.inj h)
    rw [heq, htext, List.count_singleton, if_neg (by simpa using hc)]

/-! ## Encoded text -/

theorem first_two {b : UInt8} (hlow : 0xc2 ≤ b.toNat) (hhigh : b.toNat < 0xe0) :
    ∃ s, first b = ([], some s) ∧ s.more = 0 ∧ (s.low = 0x80 ∧ s.high = 0xbf) ∧
      s.bits = b.toNat - 0xc0 := by
  rw [first, if_neg (by omega), dif_neg (by omega), dif_pos hhigh]
  exact ⟨_, rfl, rfl, ⟨rfl, rfl⟩, rfl⟩

theorem first_three {b : UInt8} (hlow : 0xe0 ≤ b.toNat) (hhigh : b.toNat < 0xf0) :
    ∃ s, first b = ([], some s) ∧ s.more = 1 ∧
      (s.low = (if b.toNat = 0xe0 then 0xa0 else 0x80) ∧
        s.high = if b.toNat = 0xed then 0x9f else 0xbf) ∧ s.bits = b.toNat - 0xe0 := by
  rw [first, if_neg (by omega), dif_neg (by omega), dif_neg (by omega), dif_pos hhigh]
  exact ⟨_, rfl, rfl, ⟨rfl, rfl⟩, rfl⟩

theorem first_four {b : UInt8} (hlow : 0xf0 ≤ b.toNat) (hhigh : b.toNat < 0xf5) :
    ∃ s, first b = ([], some s) ∧ s.more = 2 ∧
      (s.low = (if b.toNat = 0xf0 then 0x90 else 0x80) ∧
        s.high = if b.toNat = 0xf4 then 0x8f else 0xbf) ∧ s.bits = b.toNat - 0xf0 := by
  rw [first, if_neg (by omega), dif_neg (by omega), dif_neg (by omega), dif_neg (by omega),
    if_pos hhigh]
  exact ⟨_, rfl, rfl, ⟨rfl, rfl⟩, rfl⟩

/-- A sequence of three bytes or four goes on with its second, and then wants any of its kind. -/
theorem next_goOn {s : Begun} {b : UInt8} {more : ℕ} (hfits : s.Fits b)
    (hmore : s.more = more + 1) :
    ∃ s', next (some s) b = ([], some s') ∧ s'.more = more ∧ (s'.low = 0x80 ∧ s'.high = 0xbf) ∧
      s'.bits = s.value b := by
  refine ⟨s.goOn b hfits, next_more hfits (by omega), ?_, ⟨rfl, rfl⟩, rfl⟩
  change s.more - 1 = more
  omega

theorem toNat_byte {n : ℕ} (h : n < 256) : (UInt8.ofNat n).toNat = n := by
  rw [UInt8.toNat_ofNat']
  exact Nat.mod_eq_of_lt h

theorem first_one {b : UInt8} (h : b.toNat < 0x80) : first b = ([Char.ofNat b.toNat], none) := by
  rw [first, if_pos h]

theorem feed_begun {begun : Option Begun} {b : UInt8} {s : Begun} (h : next begun b = ([], some s))
    (bytes : Bytes) : feed begun (b :: bytes) = feed (some s) bytes := by
  simp only [feed, h]
  rfl

theorem feed_done {begun : Option Begun} {b : UInt8} {c : Char} (h : next begun b = ([c], none)) :
    feed begun [b] = ([c], none) := by
  simp only [feed, h]
  rfl

/-- The last of the bytes gives the character, and none before it gives anything. -/
def Completes (begun : Option Begun) (bytes : Bytes) (c : Char) : Prop :=
  feed begun bytes = ([c], none) ∧
    ∀ n, 0 < n → n < bytes.length → ∃ s, feed begun (bytes.take n) = ([], some s)

theorem completes_last {begun : Option Begun} {b : UInt8} {c : Char}
    (h : next begun b = ([c], none)) : Completes begun [b] c := by
  refine ⟨feed_done h, fun n hpos hlt => ?_⟩
  rw [List.length_singleton] at hlt
  omega

theorem completes_begun {begun : Option Begun} {b : UInt8} {s : Begun} {bytes : Bytes} {c : Char}
    (h : next begun b = ([], some s)) (hrest : Completes (some s) bytes c) :
    Completes begun (b :: bytes) c := by
  refine ⟨(feed_begun h bytes).trans hrest.1, fun n hpos hlt => ?_⟩
  obtain ⟨n, rfl⟩ := Nat.exists_eq_succ_of_ne_zero hpos.ne'
  rw [List.take_succ_cons, feed_begun h]
  rcases Nat.eq_zero_or_pos n with rfl | hn
  · exact ⟨s, rfl⟩
  · exact hrest.2 n hn (Nat.lt_of_succ_lt_succ hlt)

theorem completes_value {s : Begun} {b : UInt8} {c : Char} (hfits : s.Fits b) (hmore : s.more = 0)
    (hvalue : s.value b = c.toNat) : Completes (some s) [b] c := by
  apply completes_last
  rw [next_last hfits hmore, hvalue, Char.ofNat_toNat]

theorem completes_goOn {s : Begun} {b : UInt8} {more : ℕ} {bytes : Bytes} {c : Char}
    (hfits : s.Fits b) (hmore : s.more = more + 1)
    (hrest : ∀ s' : Begun, s'.more = more → s'.low = 0x80 ∧ s'.high = 0xbf →
      s'.bits = s.value b → Completes (some s') bytes c) : Completes (some s) (b :: bytes) c := by
  obtain ⟨s', hs', hmore', hrange', hbits'⟩ := next_goOn hfits hmore
  exact completes_begun hs' (hrest s' hmore' hrange' hbits')

/-- What is fed of a character's bytes: a sequence that has begun, and at the end the character. -/
theorem feed_encoded (c : Char) :
    feed none (String.utf8EncodeChar c) = ([c], none) ∧
      ∀ n, 0 < n → n < (String.utf8EncodeChar c).length →
        ∃ s, feed none ((String.utf8EncodeChar c).take n) = ([], some s) := by
  have hvalid : c.toNat < 55296 ∨ 57343 < c.toNat ∧ c.toNat < 1114112 := c.valid
  change Completes none (String.utf8EncodeChar c) c
  unfold String.utf8EncodeChar
  rw [show c.val.toNat = c.toNat from rfl]
  dsimp only
  split
  case isTrue hone =>
    have hb := toNat_byte (n := c.toNat) (by omega)
    apply completes_last
    rw [next, first_one (by omega), hb, Char.ofNat_toNat]
  split
  case isTrue hone htwo =>
    have hb := toNat_byte (n := c.toNat / 64 % 32 + 192) (by omega)
    have hb' := toNat_byte (n := c.toNat % 64 + 128) (by omega)
    obtain ⟨s, hs, hmore, hrange, hbits⟩ :=
      first_two (b := UInt8.ofNat (c.toNat / 64 % 32 + 192)) (by omega) (by omega)
    refine completes_begun hs (completes_value ?_ hmore ?_)
    · unfold Begun.Fits
      omega
    · unfold Begun.value
      omega
  split
  case isTrue hone htwo hthree =>
    have hb := toNat_byte (n := c.toNat / 4096 % 16 + 224) (by omega)
    have hb' := toNat_byte (n := c.toNat / 64 % 64 + 128) (by omega)
    have hb'' := toNat_byte (n := c.toNat % 64 + 128) (by omega)
    obtain ⟨s, hs, hmore, ⟨hlow, hhigh⟩, hbits⟩ :=
      first_three (b := UInt8.ofNat (c.toNat / 4096 % 16 + 224)) (by omega) (by omega)
    have hfits : s.Fits (UInt8.ofNat (c.toNat / 64 % 64 + 128)) := by
      rw [Begun.Fits, hlow, hhigh]
      constructor <;> split <;> omega
    refine completes_begun hs (completes_goOn hfits hmore ?_)
    intro s' hmore' hrange' hbits'
    refine completes_value ?_ hmore' ?_
    · unfold Begun.Fits
      omega
    · unfold Begun.value at hbits' ⊢
      omega
  case isFalse hone htwo hthree =>
    have hb := toNat_byte (n := c.toNat / 262144 % 8 + 240) (by omega)
    have hb' := toNat_byte (n := c.toNat / 4096 % 64 + 128) (by omega)
    have hb'' := toNat_byte (n := c.toNat / 64 % 64 + 128) (by omega)
    have hb''' := toNat_byte (n := c.toNat % 64 + 128) (by omega)
    obtain ⟨s, hs, hmore, ⟨hlow, hhigh⟩, hbits⟩ :=
      first_four (b := UInt8.ofNat (c.toNat / 262144 % 8 + 240)) (by omega) (by omega)
    have hfits : s.Fits (UInt8.ofNat (c.toNat / 4096 % 64 + 128)) := by
      rw [Begun.Fits, hlow, hhigh]
      constructor <;> split <;> omega
    refine completes_begun hs (completes_goOn hfits hmore ?_)
    intro s' hmore' hrange' hbits'
    have hfits' : s'.Fits (UInt8.ofNat (c.toNat / 64 % 64 + 128)) := by
      unfold Begun.Fits
      omega
    refine completes_goOn hfits' hmore' ?_
    intro s'' hmore'' hrange'' hbits''
    refine completes_value ?_ hmore'' ?_
    · unfold Begun.Fits
      omega
    · unfold Begun.value at hbits' hbits'' ⊢
      omega

/-- **Encoded text is decoded**, a character at a time. -/
theorem decode_encoded_append (c : Char) (bytes : Bytes) :
    decode (String.utf8EncodeChar c ++ bytes) = c :: decode bytes := by
  rw [decode, decodeFrom_append, (feed_encoded c).1]
  rfl

/-- Of a character that is cut the replacement is left. -/
theorem decode_take_encoded {c : Char} {n : ℕ} (hpos : 0 < n) (hlt : n < c.utf8Size) :
    decode ((String.utf8EncodeChar c).take n) = [replacement] := by
  obtain ⟨s, hs⟩ := (feed_encoded c).2 n hpos (by rwa [String.length_utf8EncodeChar])
  rw [decode, decodeFrom, hs]
  rfl

theorem encode_cons (c : Char) (text : Text) :
    encode (c :: text) = String.utf8EncodeChar c ++ encode text := List.flatMap_cons

/-- `text.encode("utf-8")[:n].decode("utf-8", errors="replace")` -/
def cut : (n : ℕ) → Text → Text
  | _, [] => []
  | n, c :: text =>
    if n = 0 then [] else if c.utf8Size ≤ n then c :: cut (n - c.utf8Size) text else [replacement]

theorem decode_take_encode (n : ℕ) (text : Text) : decode ((encode text).take n) = cut n text := by
  induction text generalizing n with
  | nil =>
    rw [encode, List.flatMap_nil, List.take_nil]
    rfl
  | cons c text ih =>
    have hlength := String.length_utf8EncodeChar c
    rw [encode_cons, cut, List.take_append, hlength]
    split
    case isTrue hzero =>
      rw [hzero, List.take_zero, Nat.zero_sub, List.take_zero]
      rfl
    split
    case isTrue hzero hle =>
      rw [List.take_of_length_le (by omega), decode_encoded_append, ih]
    case isFalse hzero hgt =>
      rw [Nat.sub_eq_zero_of_le (by omega), List.take_zero, List.append_nil]
      exact decode_take_encoded (by omega) (by omega)

end ResidentCrm.Utf8
