import ResidentCrm.Dlt.Stacktrace
import ResidentCrm.Lib.Json

/-!
# Printed traces

What `Throwable.printStackTrace` prints: a header, the frames that an exception does not share with
the one around it, the number of those that it does, its suppressed exceptions one tab further in,
and its cause. The parser gives a link for each cause; the links are those of the exceptions under
the conditions of `Level.Inverts`, and under no others (`chain_printed_iff`).
-/

namespace ResidentCrm.Dlt.Stacktrace

open Text

/-! ## Throwables -/

/-- A frame. A module has its version with it where that is printed; the target is the binary name
of the class and the method. -/
structure StackTraceElement where
  classLoaderName : Text := []
  moduleName : Text := []
  target : Text
  location : Text
  target_ne_nil : target ≠ [] := by decide
  oneWord : (classLoaderName ++ moduleName ++ target).all isTarget = true := by decide
  oneLine : '\n' ∉ location := by decide

instance : DecidableEq StackTraceElement := fun a b =>
  decidable_of_iff (a.classLoaderName = b.classLoaderName ∧ a.moduleName = b.moduleName ∧
      a.target = b.target ∧ a.location = b.location) <| by
    cases a
    cases b
    simp

namespace StackTraceElement

variable (e : StackTraceElement)

/-- The loader and the module. -/
def qualifier : Text :=
  (if e.classLoaderName = [] then [] else e.classLoaderName ++ ['/']) ++ e.moduleName

def qualified : Text := if e.qualifier = [] then e.target else e.qualifier ++ '/' :: e.target

def toText : Text := e.qualified ++ '(' :: (e.location ++ [')'])

end StackTraceElement

/-- What an exception is by itself. No line of its message looks like a frame, an elision or the
header of a cause. -/
structure Thrown where
  className : Text
  message : Option Text := none
  trace : List StackTraceElement
  className_ne_nil : className ≠ [] := by decide
  oneWord : (className.all fun c => !isSpace c) = true := by decide
  plain : ∀ line ∈ (message.getD []).splitOn '\n', isPlain line = true ∧ ¬causedBy <+: line := by
    decide

def Thrown.toText (e : Thrown) : Text :=
  e.className ++ e.message.elim [] (": ".toList ++ ·)

/-- The frames at the end of two lists that are the same. -/
def framesInCommon (trace enclosing : List StackTraceElement) : ℕ :=
  ((trace.reverse.zip enclosing.reverse).takeWhile fun (e, e') => e = e').length

/-- An exception with those that it suppressed, and with its cause. -/
inductive Throwable where
  | root (e : Thrown) (suppressed : List Throwable)
  | wrapper (e : Thrown) (suppressed : List Throwable) (cause : Throwable)

/-! ## Printing -/

inductive Caption where
  | none
  | suppressed
  | cause
deriving DecidableEq

def Caption.text : Caption → Text
  | .none => []
  | .suppressed => "Suppressed: ".toList
  | .cause => causedBy

/-- An exception where it is printed. -/
structure Part where
  depth : ℕ
  caption : Caption
  enclosing : List StackTraceElement
  thrown : Thrown

namespace Part

variable (part : Part)

def inCommon : ℕ := framesInCommon part.thrown.trace part.enclosing

/-- The frames that are printed. -/
def own : List StackTraceElement :=
  part.thrown.trace.take (part.thrown.trace.length - part.inCommon)

def elided : Option ℕ := if part.inCommon = 0 then none else some part.inCommon

def tabs : Text := List.replicate part.depth '\t'

def header : List Text :=
  (part.tabs ++ (part.caption.text ++ part.thrown.toText)).splitOn '\n'

def frameLine (e : StackTraceElement) : Text := part.tabs ++ ("\tat ".toList ++ e.toText)

def elidedLine (count : ℕ) : Text :=
  part.tabs ++ ("\t... ".toList ++ (Text.ofNat count ++ " more".toList))

def lines : List Text :=
  part.header ++ (part.own.map part.frameLine ++ part.elided.toList.map part.elidedLine)

end Part

mutual

/-- The exceptions in the order in which they are printed. -/
def Throwable.parts (depth : ℕ) (caption : Caption) (enclosing : List StackTraceElement) :
    Throwable → List Part
  | .root e suppressed =>
    ⟨depth, caption, enclosing, e⟩ :: suppressedParts (depth + 1) e.trace suppressed
  | .wrapper e suppressed cause =>
    ⟨depth, caption, enclosing, e⟩ :: (suppressedParts (depth + 1) e.trace suppressed ++
      cause.parts depth .cause e.trace)

def suppressedParts (depth : ℕ) (enclosing : List StackTraceElement) :
    List Throwable → List Part
  | [] => []
  | t :: ts => t.parts depth .suppressed enclosing ++ suppressedParts depth enclosing ts

end

/-- `printStackTrace`: each line ends in a break. -/
def Throwable.printStackTrace (t : Throwable) : Text :=
  joinLines ((t.parts 0 .none []).flatMap Part.lines ++ [[]])

/-! ## The lines of a part -/

theorem dropWhile_tabs (n : ℕ) (s : Text) :
    (List.replicate n '\t' ++ s).dropWhile isSpace = s.dropWhile isSpace := by
  have htab : isSpace '\t' = true := by decide
  rw [List.dropWhile_append_of_pos]
  intro c hc
  rw [List.eq_of_mem_replicate hc]
  exact htab

theorem takeWhile_append_stop {α : Type} {p : α → Bool} {l : List α} (hl : l.all p = true) {x : α}
    (hx : p x = false) (m : List α) : (l ++ x :: m).takeWhile p = l := by
  rw [List.takeWhile_append_of_pos (List.all_eq_true.1 hl),
    List.takeWhile_cons_of_neg (by simp [hx]), List.append_nil]

theorem dropWhile_append_stop {α : Type} {p : α → Bool} {l : List α} (hl : l.all p = true) {x : α}
    (hx : p x = false) (m : List α) : (l ++ x :: m).dropWhile p = x :: m := by
  rw [List.dropWhile_append_of_pos (List.all_eq_true.1 hl),
    List.dropWhile_cons_of_neg (by simp [hx])]

theorem StackTraceElement.qualified_oneWord (e : StackTraceElement) :
    e.qualified.all isTarget = true := by
  have hslash : isTarget '/' = true := by decide
  have h := e.oneWord
  simp only [List.all_append, Bool.and_eq_true] at h
  obtain ⟨⟨hloader, hmodule⟩, htarget⟩ := h
  rw [StackTraceElement.qualified]
  split
  · exact htarget
  · rw [StackTraceElement.qualifier]
    split <;> simp [-List.all_eq_true, hloader, hmodule, htarget, hslash]

theorem StackTraceElement.qualified_ne_nil (e : StackTraceElement) : e.qualified ≠ [] := by
  rw [StackTraceElement.qualified]
  split
  · exact e.target_ne_nil
  · simp

/-- **A printed frame is read**: what stands before its location, and its location. -/
theorem frameOf_frameLine (part : Part) (e : StackTraceElement) :
    frameOf (part.frameLine e) = some (e.qualified, some e.location) := by
  have hat : isSpace 'a' = false := by decide
  have hopen : isTarget '(' = false := by decide
  have hclose : isSpace ')' = false := by decide
  have hstart : (part.frameLine e).dropWhile isSpace = 'a' :: 't' :: ' ' :: e.toText := by
    rw [Part.frameLine, Part.tabs, dropWhile_tabs]
    change ('\t' :: 'a' :: 't' :: ' ' :: e.toText).dropWhile isSpace = _
    rw [List.dropWhile_cons_of_pos (by decide), List.dropWhile_cons_of_neg (by simp [hat])]
  obtain ⟨c, rest, hname⟩ := List.exists_cons_of_ne_nil e.qualified_ne_nil
  have hc : isSpace c = false := by
    have hall := e.qualified_oneWord
    rw [hname, List.all_cons, Bool.and_eq_true, isTarget, Bool.and_eq_true] at hall
    simpa using hall.1.1
  have hnamed : (' ' :: e.toText).dropWhile isSpace = e.toText := by
    rw [List.dropWhile_cons_of_pos (by decide), StackTraceElement.toText, hname, List.cons_append,
      List.dropWhile_cons_of_neg (by simp [hc])]
  have hne : e.toText ≠ ' ' :: e.toText := fun h => by simpa using congrArg List.length h
  have hrstrip : rstrip ('(' :: (e.location ++ [')'])) = '(' :: (e.location ++ [')']) := by
    rw [rstrip, ← List.cons_append, List.rdropWhile_concat_neg _ _ _ (by simp [hclose])]
  simp only [frameOf, hstart]
  rw [hnamed, StackTraceElement.toText, takeWhile_append_stop e.qualified_oneWord hopen,
    dropWhile_append_stop e.qualified_oneWord hopen, hrstrip, if_neg, if_neg (by simp)]
  · simp [inParentheses]
  · rintro (h | h)
    · exact hne h
    · exact e.qualified_ne_nil h

/-- **A printed elision is read**: its count. -/
theorem elidedOf_elidedLine (part : Part) (n : ℕ) :
    frameOf (part.elidedLine n) = none ∧ elidedOf (part.elidedLine n) = some n := by
  have hdot : isSpace '.' = false := by decide
  have hspace : isSpace ' ' = true := by decide
  have hnodigit : isDigit ' ' = false := by decide
  have hstart : (part.elidedLine n).dropWhile isSpace =
      '.' :: '.' :: '.' :: ' ' :: (Text.ofNat n ++ " more".toList) := by
    rw [Part.elidedLine, Part.tabs, dropWhile_tabs]
    change ('\t' :: '.' :: '.' :: '.' :: ' ' ::
      (Text.ofNat n ++ " more".toList)).dropWhile isSpace = _
    rw [List.dropWhile_cons_of_pos (by decide), List.dropWhile_cons_of_neg (by simp [hdot])]
  have hdigits : (Text.ofNat n).all isDigit = true :=
    List.all_eq_true.2 fun c hc => Text.isDigit_ofNat hc
  have hne : Text.ofNat n ≠ [] := Nat.toDigits_ne_nil
  have hcounted : (' ' :: (Text.ofNat n ++ " more".toList)).dropWhile isSpace =
      Text.ofNat n ++ ' ' :: "more".toList := by
    obtain ⟨c, rest, hcount⟩ := List.exists_cons_of_ne_nil hne
    have hc : isSpace c = false := by
      refine isSpace_of_isDigit (Text.isDigit_ofNat (n := n) ?_)
      rw [hcount]
      exact List.mem_cons_self
    rw [List.dropWhile_cons_of_pos hspace, hcount, List.cons_append,
      List.dropWhile_cons_of_neg (by simp [hc])]
    rfl
  have hmore : (' ' :: "more".toList).dropWhile isSpace = "more".toList := by decide
  constructor
  · rw [frameOf, hstart]
    rfl
  · simp only [elidedOf, hstart]
    rw [hcounted, takeWhile_append_stop hdigits hnodigit, dropWhile_append_stop hdigits hnodigit,
      hmore, if_neg, if_pos (by decide), Text.toNat_ofNat]
    rintro (h | h | h)
    · simpa using congrArg List.length h
    · exact hne h
    · exact absurd h (by decide)

/-- What a frame or an elision starts with. -/
theorem start_of_not_plain {line : Text} (h : isPlain line = false) :
    ∃ word c after, line.dropWhile isSpace = word ++ c :: after ∧ isSpace c = true ∧
      (word = "at".toList ∨ word = "...".toList) := by
  have hafter : ∀ after : Text, after.dropWhile isSpace ≠ after →
      ∃ c rest, after = c :: rest ∧ isSpace c = true := by
    intro after hne
    cases after with
    | nil => exact absurd rfl hne
    | cons c rest =>
      refine ⟨c, rest, rfl, ?_⟩
      by_contra hc
      exact hne (List.dropWhile_cons_of_neg hc)
  by_cases hframe : frameOf line = none
  · have helided : elidedOf line ≠ none := by
      intro helided
      rw [isPlain, hframe, helided] at h
      cases h
    unfold elidedOf at helided
    split at helided
    · next after hstart =>
      obtain ⟨c, rest, rfl, hc⟩ := hafter after fun hsame => by simp [hsame] at helided
      exact ⟨"...".toList, c, rest, hstart, hc, .inr rfl⟩
    · exact absurd rfl helided
  · unfold frameOf at hframe
    split at hframe
    · next after hstart =>
      obtain ⟨c, rest, rfl, hc⟩ := hafter after fun hsame => by simp [hsame] at hframe
      exact ⟨"at".toList, c, rest, hstart, hc, .inl rfl⟩
    · exact absurd rfl hframe

/-! ## Headers -/

/-- The first line of an exception, given that of its message. -/
def Thrown.firstLine (e : Thrown) (said : Text) : Text :=
  e.className ++ e.message.elim said fun _ => ": ".toList ++ said

theorem Thrown.className_noSpace (e : Thrown) : ∀ c ∈ e.className, isSpace c = false := by
  simpa using List.all_eq_true.1 e.oneWord

theorem Thrown.lines_eq (e : Thrown) :
    ∃ said later, (e.message.getD []).splitOn '\n' = said :: later ∧
      e.toText.splitOn '\n' = e.firstLine said :: later := by
  have hname : '\n' ∉ e.className := fun hbreak =>
    absurd (e.className_noSpace _ hbreak) (by decide)
  obtain ⟨said, later, hsplit⟩ :=
    List.exists_cons_of_ne_nil (List.splitOn_ne_nil '\n' (e.message.getD []))
  refine ⟨said, later, hsplit, ?_⟩
  rw [Thrown.toText, Thrown.firstLine, splitOn_append_of_not_mem hname]
  cases hmessage : e.message with
  | none =>
    rw [hmessage, Option.getD_none] at hsplit
    rw [Option.elim_none, Option.elim_none, hsplit]
    rfl
  | some m =>
    rw [hmessage, Option.getD_some] at hsplit
    rw [Option.elim_some, Option.elim_some, splitOn_append_of_not_mem (by decide), hsplit]
    rfl

theorem Part.header_eq (part : Part) {said : Text} {later : List Text}
    (h : part.thrown.toText.splitOn '\n' = part.thrown.firstLine said :: later) :
    part.header = (part.tabs ++ (part.caption.text ++ part.thrown.firstLine said)) :: later := by
  have htabs : '\n' ∉ part.tabs := fun hbreak =>
    absurd (List.eq_of_mem_replicate hbreak) (by decide)
  have hcaption : '\n' ∉ part.caption.text := by cases part.caption <;> decide
  rw [Part.header, splitOn_append_of_not_mem htabs, splitOn_append_of_not_mem hcaption, h]
  rfl

theorem Thrown.firstLine_start (e : Thrown) (said : Text) :
    (e.firstLine said).dropWhile isSpace = e.firstLine said := by
  obtain ⟨c, rest, hname⟩ := List.exists_cons_of_ne_nil e.className_ne_nil
  have hc : isSpace c = false := e.className_noSpace c (hname ▸ List.mem_cons_self)
  rw [Thrown.firstLine, hname, List.cons_append, List.dropWhile_cons_of_neg (by simp [hc])]

/-- The first line is neither a frame nor an elision, as its first word is a class, with a colon
where there is a message. -/
theorem Thrown.firstLine_word (e : Thrown) {said : Text} (hsaid : e.message = none → said = [])
    {word after : Text} {c : Char} (hline : e.firstLine said = word ++ c :: after)
    (hc : isSpace c = true) (hword : word = "at".toList ∨ word = "...".toList) : False := by
  have hspaceless : (word.all fun d => !isSpace d) = true := by
    rcases hword with rfl | rfl <;> decide
  have htake := takeWhile_append_stop hspaceless (x := c) (by simp [hc]) after
  rw [← hline, Thrown.firstLine] at htake
  cases hmessage : e.message with
  | none =>
    rw [Thrown.firstLine, hmessage, Option.elim_none, hsaid hmessage, List.append_nil] at hline
    have hnot := e.className_noSpace c (by rw [hline]; simp)
    rw [hc] at hnot
    cases hnot
  | some m =>
    have hcolon : ((e.className ++ [':']).all fun d => !isSpace d) = true := by
      rw [List.all_append, e.oneWord]
      decide
    have hfirst : e.className ++ (": ".toList ++ said) = e.className ++ [':'] ++ ' ' :: said := by
      rw [List.append_assoc]
      rfl
    rw [hmessage, Option.elim_some, hfirst, takeWhile_append_stop hcolon (by decide)] at htake
    have hlast := congrArg List.getLast? htake
    rw [List.getLast?_concat] at hlast
    rcases hword with rfl | rfl <;> exact absurd hlast (by decide)

/-- A line that starts with a letter that no frame and no elision starts with. -/
theorem isPlain_of_head {line rest : Text} {c : Char} (hstart : line.dropWhile isSpace = c :: rest)
    (hc : c ≠ 'a' ∧ c ≠ '.') : isPlain line = true := by
  by_contra hplain
  rw [Bool.not_eq_true] at hplain
  obtain ⟨word, d, after, hword, -, rfl | rfl⟩ := start_of_not_plain hplain
  · exact hc.1 (List.cons.inj (hstart.symm.trans hword)).1
  · exact hc.2 (List.cons.inj (hstart.symm.trans hword)).1

theorem dropWhile_caption (n : ℕ) {c : Char} (hc : isSpace c = false) (s : Text) :
    (List.replicate n '\t' ++ c :: s).dropWhile isSpace = c :: s := by
  rw [dropWhile_tabs, List.dropWhile_cons_of_neg (by simp [hc])]

theorem Part.header_plain (part : Part) : part.header.all isPlain = true := by
  obtain ⟨said, later, hmessage, hlines⟩ := part.thrown.lines_eq
  rw [part.header_eq hlines, List.all_cons, Bool.and_eq_true, List.all_eq_true]
  refine ⟨?_, fun line hline => (part.thrown.plain line ?_).1⟩
  · cases hcaption : part.caption with
    | none =>
      by_contra hplain
      rw [Bool.not_eq_true] at hplain
      obtain ⟨word, c, after, hstart, hc, hword⟩ := start_of_not_plain hplain
      have hbare : Caption.none.text = [] := rfl
      rw [Part.tabs, dropWhile_tabs, hbare, List.nil_append,
        part.thrown.firstLine_start] at hstart
      refine part.thrown.firstLine_word (fun hnone => ?_) hstart hc hword
      rw [hnone, Option.getD_none, List.splitOn_nil] at hmessage
      exact (List.cons.inj hmessage).1.symm
    | suppressed => exact isPlain_of_head (dropWhile_caption _ (by decide) _) (by decide)
    | cause => exact isPlain_of_head (dropWhile_caption _ (by decide) _) (by decide)
  · rw [hmessage]
    exact List.mem_cons_of_mem _ hline

/-! ## What the lines of a part are read as -/

theorem filterMap_of_plain {lines : List Text} (h : lines.all isPlain = true) :
    lines.filterMap frameOf = [] ∧ lines.filterMap elisionOf = [] := by
  rw [List.filterMap_eq_nil_iff, List.filterMap_eq_nil_iff]
  constructor <;> intro line hline
  · have hplain := List.all_eq_true.1 h line hline
    rw [isPlain, Bool.and_eq_true] at hplain
    simpa using hplain.1
  · have hplain := List.all_eq_true.1 h line hline
    rw [isPlain, Bool.and_eq_true] at hplain
    have helided : elidedOf line = none := by simpa using hplain.2
    rw [elisionOf, helided, ite_self]

theorem Part.filterMap_frameOf (part : Part) :
    part.lines.filterMap frameOf = part.own.map fun e => (e.qualified, some e.location) := by
  rw [Part.lines, List.filterMap_append, (filterMap_of_plain part.header_plain).1,
    List.filterMap_append, List.filterMap_map, List.filterMap_map, List.nil_append]
  have hframes : frameOf ∘ part.frameLine = some ∘ fun e => (e.qualified, some e.location) :=
    funext fun e => frameOf_frameLine part e
  have helided : frameOf ∘ part.elidedLine = fun _ => none :=
    funext fun n => (elidedOf_elidedLine part n).1
  rw [hframes, helided, List.filterMap_eq_map]
  simp

theorem Part.filterMap_elisionOf (part : Part) :
    part.lines.filterMap elisionOf = part.elided.toList := by
  rw [Part.lines, List.filterMap_append, (filterMap_of_plain part.header_plain).2,
    List.filterMap_append, List.filterMap_map, List.filterMap_map, List.nil_append]
  have hframes : elisionOf ∘ part.frameLine = fun _ => none := funext fun e => by
    rw [Function.comp_apply, elisionOf, frameOf_frameLine]
    rfl
  have helided : elisionOf ∘ part.elidedLine = some := funext fun n => by
    rw [Function.comp_apply, elisionOf, (elidedOf_elidedLine part n).1,
      (elidedOf_elidedLine part n).2]
    rfl
  rw [hframes, helided, List.filterMap_some]
  simp

/-- After a header its lines are none of one. -/
theorem Part.takeWhile_plain (part : Part) (h : part.own ≠ [] ∨ part.elided ≠ none)
    (more : List Text) : (part.lines ++ more).takeWhile isPlain = part.header := by
  have hframe : ∀ e, isPlain (part.frameLine e) = false := fun e => by
    rw [isPlain, frameOf_frameLine]
    rfl
  have helided : ∀ n, isPlain (part.elidedLine n) = false := fun n => by
    rw [isPlain, (elidedOf_elidedLine part n).2, Option.isNone_some, Bool.and_false]
  rw [Part.lines, List.append_assoc]
  cases hown : part.own with
  | cons e rest => exact takeWhile_append_stop part.header_plain (hframe e) _
  | nil =>
    cases hcount : part.elided with
    | some n => exact takeWhile_append_stop part.header_plain (helided n) _
    | none => exact absurd hcount (h.resolve_left fun hne => hne hown)

/-! ## Where a cause starts -/

theorem not_causedBy_of_tab (s : Text) : ¬causedBy <+: '\t' :: s := by
  rintro ⟨rest, hrest⟩
  exact absurd (List.cons.inj hrest).1 (by decide)

theorem not_causedBy_tabs (n : ℕ) (s : Text) :
    ¬causedBy <+: List.replicate n '\t' ++ '\t' :: s := by
  cases n with
  | zero => exact not_causedBy_of_tab s
  | succ n => exact not_causedBy_of_tab _

/-- A part is its first line, with the caption, and lines that start no cause. -/
theorem Part.lines_eq (depth : ℕ) (enclosing : List StackTraceElement) (e : Thrown) :
    ∃ said rest, (∀ caption : Caption, (Part.mk depth caption enclosing e).lines =
        (List.replicate depth '\t' ++ (caption.text ++ e.firstLine said)) :: rest) ∧
      ∀ line ∈ rest, ¬causedBy <+: line := by
  obtain ⟨said, later, hmessage, hlines⟩ := e.lines_eq
  let part : Part := ⟨depth, .none, enclosing, e⟩
  refine ⟨said, later ++ (part.own.map part.frameLine ++ part.elided.toList.map part.elidedLine),
    fun caption => ?_, fun line hline => ?_⟩
  · rw [Part.lines, Part.header_eq _ hlines]
    rfl
  rcases List.mem_append.1 hline with hline | hline
  · refine (e.plain line ?_).2
    rw [hmessage]
    exact List.mem_cons_of_mem _ hline
  rcases List.mem_append.1 hline with hline | hline
  · obtain ⟨frame, -, rfl⟩ := List.mem_map.1 hline
    exact not_causedBy_tabs _ _
  · obtain ⟨n, -, rfl⟩ := List.mem_map.1 hline
    exact not_causedBy_tabs _ _

/-- What is printed further in starts no cause. -/
theorem Part.not_causedBy (part : Part) (h : part.depth ≠ 0) :
    ∀ line ∈ part.lines, ¬causedBy <+: line := by
  obtain ⟨said, rest, hlines, hrest⟩ := Part.lines_eq part.depth part.enclosing part.thrown
  obtain ⟨n, hn⟩ := Nat.exists_eq_succ_of_ne_zero h
  rw [show part.lines = _ from hlines part.caption]
  intro line hline
  rcases List.mem_cons.1 hline with rfl | hline
  · rw [hn, List.replicate_succ, List.cons_append]
    exact not_causedBy_of_tab _
  · exact hrest line hline

/-! ## The chain of causes -/

mutual

theorem Throwable.le_depth : ∀ (t : Throwable) (depth : ℕ) (caption : Caption)
    (enclosing : List StackTraceElement), ∀ part ∈ t.parts depth caption enclosing,
      depth ≤ part.depth
  | .root e suppressed, depth, caption, enclosing, part, hpart => by
    rw [Throwable.parts] at hpart
    rcases List.mem_cons.1 hpart with rfl | hpart
    · exact le_refl depth
    · exact (Nat.le_succ depth).trans (le_depth_suppressed suppressed _ _ part hpart)
  | .wrapper e suppressed cause, depth, caption, enclosing, part, hpart => by
    rw [Throwable.parts] at hpart
    rcases List.mem_cons.1 hpart with rfl | hpart
    · exact le_refl depth
    rcases List.mem_append.1 hpart with hpart | hpart
    · exact (Nat.le_succ depth).trans (le_depth_suppressed suppressed _ _ part hpart)
    · exact cause.le_depth _ _ _ part hpart

theorem le_depth_suppressed : ∀ (ts : List Throwable) (depth : ℕ)
    (enclosing : List StackTraceElement), ∀ part ∈ suppressedParts depth enclosing ts,
      depth ≤ part.depth
  | [], _, _, _, hpart => by
    rw [suppressedParts] at hpart
    cases hpart
  | t :: ts, depth, enclosing, part, hpart => by
    rw [suppressedParts] at hpart
    rcases List.mem_append.1 hpart with hpart | hpart
    · exact t.le_depth _ _ _ part hpart
    · exact le_depth_suppressed ts _ _ part hpart

end

/-- An exception of the chain of causes, with all that is printed of those that it suppressed. -/
structure Level where
  enclosing : List StackTraceElement
  thrown : Thrown
  suppressed : List Part
  deeper : ∀ part ∈ suppressed, part.depth ≠ 0

def levelOf (enclosing : List StackTraceElement) (e : Thrown) (suppressed : List Throwable) :
    Level where
  enclosing
  thrown := e
  suppressed := suppressedParts 1 e.trace suppressed
  deeper part hpart := Nat.one_le_iff_ne_zero.1 (le_depth_suppressed suppressed 1 _ part hpart)

/-- The chain of causes, the outermost exception first. -/
def Throwable.levels (enclosing : List StackTraceElement) : Throwable → List Level
  | .root e suppressed => [levelOf enclosing e suppressed]
  | .wrapper e suppressed cause => levelOf enclosing e suppressed :: cause.levels e.trace

namespace Level

variable (level : Level)

def part (caption : Caption) : Part := ⟨0, caption, level.enclosing, level.thrown⟩

def own : List StackTraceElement := (level.part .none).own

def elided : Option ℕ := (level.part .none).elided

def lines (caption : Caption) : List Text :=
  (level.part caption).lines ++ level.suppressed.flatMap Part.lines

/-- The link of an exception: its class, its message, its own frames by their binary names, with
their locations, and the number of those left out. -/
def link : ExceptionLink where
  fqcn := level.thrown.className
  message := level.thrown.message.getD []
  frames := level.own.map (·.target)
  elided := level.elided
  locations := level.own.map fun e => some e.location

/-- What is printed of an exception is read as its link: its name is one that the parser knows, its
message has no white space around it, its frames name no loader, and nothing is read of what it
suppressed. -/
structure Inverts (alnum : Char → Bool) : Prop where
  className : isFqcn alnum level.thrown.className = true
  message : ∀ m ∈ level.thrown.message, m ≠ [] ∧ strip m = m
  frames : ∀ e ∈ level.own, e.classLoaderName = [] ∧
    '/' ∉ if e.moduleName = [] then e.target else e.moduleName
  header : level.suppressed = [] ∨ level.own ≠ [] ∨ level.elided ≠ none
  suppressedFrames : ∀ part ∈ level.suppressed, part.own = []
  suppressedElided : ∀ n, (level.suppressed.filterMap Part.elided).getLast? = some n →
    level.elided = some n

end Level

theorem flatMap_parts : ∀ (t : Throwable) (caption : Caption) (enclosing : List StackTraceElement),
    ∃ level causes, t.levels enclosing = level :: causes ∧
      (t.parts 0 caption enclosing).flatMap Part.lines =
        level.lines caption ++ causes.flatMap (Level.lines · .cause)
  | .root e suppressed, caption, enclosing => by
    refine ⟨levelOf enclosing e suppressed, [], by rw [Throwable.levels], ?_⟩
    rw [Throwable.parts, List.flatMap_cons, List.flatMap_nil, List.append_nil]
    rfl
  | .wrapper e suppressed cause, caption, enclosing => by
    obtain ⟨level, causes, hlevels, hparts⟩ := flatMap_parts cause .cause e.trace
    refine ⟨levelOf enclosing e suppressed, level :: causes, by rw [Throwable.levels, hlevels], ?_⟩
    rw [Throwable.parts, List.flatMap_cons, List.flatMap_append, hparts, List.flatMap_cons,
      ← List.append_assoc]
    rfl

/-! ## The blocks of a printed trace -/

section

variable (alnum : Char → Bool)

/-- A blank line at its end is nothing to a link. -/
theorem linkOf_append_blank (lines : List Text) :
    linkOf alnum (lines ++ [[]]) = linkOf alnum lines := by
  obtain ⟨hframe, helided⟩ : frameOf [] = none ∧ elidedOf [] = none :=
    lines_of_blank fun c hc => nomatch hc
  have hbreak : isSpace '\n' = true := by decide
  have helision : elisionOf [] = none := by rw [elisionOf, helided, ite_self]
  have hheader : strip (joinLines ((lines ++ [[]]).takeWhile isPlain)) =
      strip (joinLines (lines.takeWhile isPlain)) := by
    cases hall : lines.all isPlain with
    | false =>
      rw [takeWhile_append_of_not_all hall]
    | true =>
      rw [List.takeWhile_append_of_pos (List.all_eq_true.1 hall), takeWhile_of_all hall,
        takeWhile_of_all (by decide)]
      by_cases hnil : lines = []
      · rw [hnil]
        rfl
      · rw [joinLines_append hnil (List.cons_ne_nil _ _), joinLines_singleton,
          strip_append_of_blank fun c hc => List.mem_singleton.1 hc ▸ hbreak]
  rw [linkOf_eq, linkOf_eq, hheader]
  simp [hframe, helision]

theorem Level.lines_eq (level : Level) :
    ∃ first rest, level.lines .none = first :: rest ∧
      level.lines .cause = (causedBy ++ first) :: rest ∧
        (∀ line ∈ rest, ¬causedBy <+: line) ∧ ∃ c ∈ first, isSpace c = false := by
  obtain ⟨said, rest, hlines, hrest⟩ := Part.lines_eq 0 level.enclosing level.thrown
  refine ⟨level.thrown.firstLine said, rest ++ level.suppressed.flatMap Part.lines, ?_, ?_, ?_, ?_⟩
  · rw [Level.lines, Level.part, hlines]
    rfl
  · rw [Level.lines, Level.part, hlines]
    rfl
  · intro line hline
    rcases List.mem_append.1 hline with hline | hline
    · exact hrest line hline
    · obtain ⟨part, hpart, hline⟩ := List.mem_flatMap.1 hline
      exact part.not_causedBy (level.deeper part hpart) line hline
  · obtain ⟨c, name, hname⟩ := List.exists_cons_of_ne_nil level.thrown.className_ne_nil
    have hc : c ∈ level.thrown.className := hname ▸ List.mem_cons_self
    exact ⟨c, List.mem_append_left _ hc, level.thrown.className_noSpace c hc⟩

/-- The blocks that the causes of an exception start, read as links. -/
theorem map_blocksFrom (causes : List Level) (block : List Text) :
    (blocksFrom causedBy block (causes.flatMap (Level.lines · .cause) ++ [[]])).map (linkOf alnum) =
      linkOf alnum block :: causes.map fun level => linkOf alnum (level.lines .none) := by
  induction causes generalizing block with
  | nil =>
    have hblank : causedBy.isPrefixOf [] = false := by decide
    rw [List.flatMap_nil, List.nil_append, blocksFrom, hblank, if_neg Bool.false_ne_true,
      blocksFrom, List.map_singleton, linkOf_append_blank]
    rfl
  | cons level causes ih =>
    obtain ⟨first, rest, hfirst, hcause, hrest, -⟩ := level.lines_eq
    have hmark : causedBy.isPrefixOf (causedBy ++ first) = true :=
      List.isPrefixOf_iff_prefix.2 (List.prefix_append _ _)
    rw [List.flatMap_cons, hcause, List.append_assoc, List.cons_append, blocksFrom, hmark,
      if_pos rfl, List.drop_left, blocksFrom_append hrest, List.map_cons, ih, List.map_cons, hfirst]
    rfl

theorem oneLine_flatMap {parts : List Part} : ∀ line ∈ parts.flatMap Part.lines, '\n' ∉ line := by
  intro line hline
  obtain ⟨part, -, hline⟩ := List.mem_flatMap.1 hline
  have htabs : '\n' ∉ part.tabs := fun hbreak =>
    absurd (List.eq_of_mem_replicate hbreak) (by decide)
  rcases List.mem_append.1 hline with hline | hline
  · exact not_mem_splitOn hline
  rcases List.mem_append.1 hline with hline | hline
  · obtain ⟨e, -, rfl⟩ := List.mem_map.1 hline
    have hname : '\n' ∉ e.qualified := fun hbreak =>
      absurd (List.all_eq_true.1 e.qualified_oneWord _ hbreak) (by decide)
    simp [Part.frameLine, StackTraceElement.toText, htabs, hname, e.oneLine]
  · obtain ⟨n, -, rfl⟩ := List.mem_map.1 hline
    have hdigits : '\n' ∉ Text.ofNat n := fun hbreak =>
      absurd (Text.isDigit_ofNat hbreak) (by decide)
    simp [Part.elidedLine, htabs, hdigits]

/-- **A link for each cause**, in order: what is read from the lines of the exception and of those
that it suppressed. -/
theorem chain_printStackTrace (t : Throwable) :
    (parseStacktrace alnum (some t.printStackTrace)).chain =
      (t.levels []).map fun level => linkOf alnum (level.lines .none) := by
  obtain ⟨level, causes, hlevels, hparts⟩ := flatMap_parts t .none []
  obtain ⟨first, rest, hfirst, -, hrest, c, hc, hspace⟩ := level.lines_eq
  have hlines : (t.parts 0 .none []).flatMap Part.lines ++ [[]] =
      first :: (rest ++ (causes.flatMap (Level.lines · .cause) ++ [[]])) := by
    rw [hparts, hfirst, List.append_assoc]
    rfl
  have hone : ∀ l ∈ first :: (rest ++ (causes.flatMap (Level.lines · .cause) ++ [[]])),
      '\n' ∉ l := by
    rw [← hlines]
    intro l hl
    rcases List.mem_append.1 hl with hl | hl
    · exact oneLine_flatMap l hl
    · rw [List.mem_singleton.1 hl]
      exact List.not_mem_nil
  have hblank : strip (joinLines (first :: (rest ++ (causes.flatMap (Level.lines · .cause) ++
      [[]])))) ≠ [] := fun hnil => by
    have hall := strip_eq_nil hnil c (mem_joinLines List.mem_cons_self hc)
    rw [hspace] at hall
    cases hall
  rw [Throwable.printStackTrace, hlines, chain_joinLines alnum hone hblank,
    blocksFrom_append hrest, map_blocksFrom, hlevels, List.map_cons, hfirst]
  rfl

/-! ## Headers that are read -/

theorem colon_not_mem {name : Text} (h : isFqcn alnum name = true)
    (hspace : ∀ c ∈ name, isSpace c = false) : ':' ∉ name := by
  intro hmem
  have hlast : name.getLast? ≠ some '\n' := fun hbreak =>
    absurd (hspace _ (List.mem_of_getLast? hbreak)) (by decide)
  simp only [isFqcn] at h
  rw [if_neg hlast, List.all_eq_true] at h
  have hwithin : [':'] <:+: ['.'].intercalate (name.splitOn '.') := by
    rw [List.intercalate_splitOn]
    obtain ⟨s, r, rfl⟩ := List.append_of_mem hmem
    exact ⟨s, r, by simp⟩
  obtain ⟨part, hpart, hcolon⟩ :=
    (infix_intercalate (List.cons_ne_nil _ _) (by decide)).1 hwithin
  have hname := h part hpart
  have hchar : ':' ∈ part := hcolon.subset List.mem_cons_self
  cases part with
  | nil => cases hchar
  | cons c part =>
    rw [isNamePart, Bool.and_eq_true, List.all_eq_true] at hname
    rcases List.mem_cons.1 hchar with rfl | hchar
    · exact absurd hname.1 (by decide)
    · have hcolon := hname.2 _ hchar
      rw [isWord, if_pos (by decide)] at hcolon
      exact absurd hcolon (by decide)

/-- A header that a class is read from: the class alone, or with what is said. -/
theorem readHeader_inv {header fqcn message : Text}
    (h : readHeader alnum header = (fqcn, message)) (hne : fqcn ≠ []) :
    isFqcn alnum fqcn = true ∧ (header = fqcn ∧ message = [] ∨
      ∃ said, header = fqcn ++ (": ".toList ++ said) ∧ message = strip said) := by
  simp only [readHeader] at h
  split at h
  · exact absurd (Prod.mk.inj h).1.symm hne
  split at h
  · next hname =>
    obtain ⟨rfl, rfl⟩ := Prod.mk.inj h
    refine ⟨hname, ?_⟩
    rcases partition_cases ": ".toList header with hparts | ⟨hfirst, hsecond⟩
    · exact .inr ⟨_, hparts, rfl⟩
    · rw [hfirst, hsecond]
      exact .inl ⟨rfl, rfl⟩
  split at h
  · next hname =>
    obtain ⟨rfl, rfl⟩ := Prod.mk.inj h
    exact ⟨hname, .inl ⟨rfl, rfl⟩⟩
  · exact absurd (Prod.mk.inj h).1.symm hne

theorem readHeader_name {name : Text} (h : isFqcn alnum name = true) (hne : name ≠ [])
    (hspace : ∀ c ∈ name, isSpace c = false) : readHeader alnum name = (name, []) := by
  have hparts : partition ": ".toList name = (name, []) :=
    partition_of_not_mem _ (colon_not_mem alnum h hspace)
  simp only [readHeader, hparts]
  rw [if_neg hne, if_pos h]
  rfl

theorem readHeader_said {name : Text} (h : isFqcn alnum name = true)
    (hspace : ∀ c ∈ name, isSpace c = false) (said : Text) :
    readHeader alnum (name ++ (": ".toList ++ said)) = (name, strip said) := by
  have hparts : partition ": ".toList (name ++ (": ".toList ++ said)) = (name, said) :=
    partition_append _ (colon_not_mem alnum h hspace) said
  simp only [readHeader, hparts]
  rw [if_neg (by simp), if_pos h]

/-- What is printed of an exception, and more, has no white space before it. -/
theorem Thrown.strip_append (e : Thrown) (s : Text) :
    strip (e.className ++ s) = e.className ++ rstrip s := by
  obtain ⟨c, name, hname⟩ := List.exists_cons_of_ne_nil e.className_ne_nil
  have hc : isSpace c = false := e.className_noSpace c (hname ▸ List.mem_cons_self)
  have hstart : (e.className ++ s).dropWhile isSpace = e.className ++ s := by
    rw [hname, List.cons_append, List.dropWhile_cons_of_neg (by simp [hc])]
  rw [strip, hstart]
  by_cases hs : rstrip s = []
  · have hself : rstrip e.className = e.className := by
      rw [rstrip, List.rdropWhile_eq_self_iff]
      exact fun hne => by simp [e.className_noSpace _ (List.getLast_mem hne)]
    rw [hs, List.append_nil]
    exact (rstrip_append_of_blank (rstrip_eq_nil.1 hs) _).trans hself
  · exact rstrip_append hs _

theorem rstrip_colon (s : Text) :
    rstrip (": ".toList ++ s) = if rstrip s = [] then [':'] else ": ".toList ++ rstrip s := by
  split
  case isTrue hs => exact rstrip_append_of_blank (rstrip_eq_nil.1 hs) _
  case isFalse hs => exact rstrip_append hs _

theorem strip_rstrip (s : Text) : strip (rstrip s) = strip s := by
  have hsplit : s = rstrip s ++ s.rtakeWhile isSpace := (List.rdropWhile_append_rtakeWhile ..).symm
  have hblank : ∀ c ∈ s.rtakeWhile isSpace, isSpace c = true := fun c hc =>
    List.mem_rtakeWhile_imp hc
  conv_rhs => rw [hsplit]
  rw [strip_append_of_blank hblank]

/-- **A header is read** where the class is a binary name and the message is not empty and has no
white space around it. -/
theorem readHeader_toText_iff (e : Thrown) :
    readHeader alnum (strip e.toText) = (e.className, e.message.getD []) ↔
      isFqcn alnum e.className = true ∧ ∀ m ∈ e.message, m ≠ [] ∧ strip m = m := by
  rw [Thrown.toText, e.strip_append]
  cases hmessage : e.message with
  | none =>
    have hnone : rstrip ([] : Text) = [] := rfl
    rw [Option.elim_none, hnone, List.append_nil, Option.getD_none]
    constructor
    · intro h
      exact ⟨(readHeader_inv alnum h e.className_ne_nil).1, nofun⟩
    · rintro ⟨h, -⟩
      exact readHeader_name alnum h e.className_ne_nil e.className_noSpace
  | some m =>
    rw [Option.elim_some, rstrip_colon, Option.getD_some]
    constructor
    · intro h
      obtain ⟨hname, hheader⟩ := readHeader_inv alnum h e.className_ne_nil
      refine ⟨hname, fun m' hm' => ?_⟩
      obtain rfl : m = m' := Option.some.inj hm'
      split at hheader
      case isTrue hblank =>
        rcases hheader with ⟨hheader, -⟩ | ⟨said, hheader, -⟩
        · simpa using congrArg List.length hheader
        · simpa using congrArg List.length (List.append_cancel_left hheader)
      case isFalse hsaid =>
        have hne : m ≠ [] := by
          rintro rfl
          exact hsaid rfl
        rcases hheader with ⟨hheader, -⟩ | ⟨said, hheader, hstrip⟩
        · simpa using congrArg List.length hheader
        · obtain rfl : rstrip m = said :=
            List.append_cancel_left (List.append_cancel_left hheader)
          rw [strip_rstrip] at hstrip
          exact ⟨hne, hstrip.symm⟩
    · rintro ⟨hname, hm⟩
      obtain ⟨hne, hstrip⟩ := hm m rfl
      have hsaid : rstrip m ≠ [] := fun hblank => by
        rw [← strip_rstrip, hblank] at hstrip
        exact hne hstrip.symm
      rw [if_neg hsaid, readHeader_said alnum hname e.className_noSpace, strip_rstrip, hstrip]

/-- What has more than white space after it is not all that there is. -/
theorem strip_append_ne {s : Text} (hs : rstrip s ≠ []) (m : Text) : strip (m ++ s) ≠ m := by
  intro h
  have hstable : strip m = m := by
    conv_rhs => rw [← h, ← strip_idempotent, h]
  rw [strip, List.dropWhile_append] at h
  split at h
  case isTrue hblank =>
    have hm : m = [] := by
      rw [← hstable, strip, List.isEmpty_iff.1 hblank]
      rfl
    rw [hm] at h
    exact hs (rstrip_eq_nil.2 (strip_eq_nil h))
  case isFalse =>
    have hrest : rstrip (m.dropWhile isSpace ++ s) = m.dropWhile isSpace ++ rstrip s :=
      rstrip_append hs _
    have hlong := congrArg List.length (hrest.symm.trans h)
    have hshort : (strip m).length ≤ (m.dropWhile isSpace).length :=
      (List.rdropWhile_prefix _ _).length_le
    have hpos := List.length_pos_iff.2 hs
    rw [hstable] at hshort
    rw [List.length_append] at hlong
    omega

/-- A header that runs on into what is suppressed is not read. -/
theorem readHeader_append_ne (e : Thrown) {s : Text} (hs : rstrip s ≠ []) :
    readHeader alnum (strip (e.toText ++ '\n' :: '\t' :: s)) ≠
      (e.className, e.message.getD []) := by
  have hmore : rstrip ('\n' :: '\t' :: s) = '\n' :: '\t' :: rstrip s :=
    rstrip_append hs ['\n', '\t']
  have hne : rstrip ('\n' :: '\t' :: s) ≠ [] := hmore ▸ List.cons_ne_nil _ _
  intro h
  rw [Thrown.toText, List.append_assoc, e.strip_append] at h
  obtain ⟨-, hheader⟩ := readHeader_inv alnum h e.className_ne_nil
  cases hmessage : e.message with
  | none =>
    rw [hmessage, Option.elim_none, List.nil_append, hmore] at hheader
    rcases hheader with ⟨hheader, -⟩ | ⟨said, hheader, -⟩
    · simpa using congrArg List.length hheader
    · have hhead := List.append_cancel_left hheader
      exact absurd (List.cons.inj hhead).1 (by decide)
  | some m =>
    have hrest : rstrip (m ++ '\n' :: '\t' :: s) = m ++ '\n' :: '\t' :: rstrip s := by
      rw [rstrip_append hne, hmore]
    have hall : rstrip (": ".toList ++ m ++ '\n' :: '\t' :: s) =
        ": ".toList ++ (m ++ '\n' :: '\t' :: rstrip s) := by
      rw [rstrip_append hne, hmore, List.append_assoc]
    rw [hmessage, Option.elim_some, Option.getD_some, hall] at hheader
    rcases hheader with ⟨hheader, -⟩ | ⟨said, hheader, hstrip⟩
    · simpa using congrArg List.length hheader
    · obtain rfl := List.append_cancel_left (List.append_cancel_left hheader)
      have hstable : rstrip (rstrip s) = rstrip s := List.rdropWhile_idempotent _ _
      refine strip_append_ne (s := '\n' :: '\t' :: rstrip s) (fun hblank => ?_) m hstrip.symm
      have hkept : rstrip ('\n' :: '\t' :: rstrip s) = '\n' :: '\t' :: rstrip (rstrip s) :=
        rstrip_append (hstable.symm ▸ hs) ['\n', '\t']
      rw [hkept] at hblank
      cases hblank

theorem joinLines_header (part : Part) :
    joinLines part.header = part.tabs ++ (part.caption.text ++ part.thrown.toText) :=
  List.intercalate_splitOn '\n'

theorem joinLines_cons_cons_char (c : Char) (first : Text) (rest : List Text) :
    joinLines ((c :: first) :: rest) = c :: joinLines (first :: rest) := by
  cases rest with
  | nil => rw [joinLines_singleton, joinLines_singleton]
  | cons next rest => rw [joinLines_cons_cons, joinLines_cons_cons, List.cons_append]

/-- What a suppressed exception prints at first goes on with the header before it. -/
theorem takeWhile_suppressed {part : Part} (h : part.depth ≠ 0) (more : List Text) :
    ∃ s, rstrip s ≠ [] ∧ (part.lines ++ more).takeWhile isPlain ≠ [] ∧
      joinLines ((part.lines ++ more).takeWhile isPlain) = '\t' :: s := by
  obtain ⟨n, hn⟩ := Nat.exists_eq_succ_of_ne_zero h
  obtain ⟨said, later, -, hlines⟩ := part.thrown.lines_eq
  have hheader := part.header_eq hlines
  rw [Part.tabs, hn, List.replicate_succ, List.cons_append] at hheader
  have hfirst := part.header_plain
  rw [hheader, List.all_cons, Bool.and_eq_true] at hfirst
  rw [Part.lines, hheader, List.append_assoc, List.cons_append, List.takeWhile_cons_of_pos hfirst.1,
    joinLines_cons_cons_char]
  refine ⟨_, fun hblank => ?_, List.cons_ne_nil _ _, rfl⟩
  obtain ⟨c, name, hname⟩ := List.exists_cons_of_ne_nil part.thrown.className_ne_nil
  have hc : c ∈ part.thrown.className := hname ▸ List.mem_cons_self
  have hspace := rstrip_eq_nil.1 hblank c <| mem_joinLines List.mem_cons_self <|
    List.mem_append_right _ <| List.mem_append_right _ <| List.mem_append_left _ hc
  rw [part.thrown.className_noSpace c hc] at hspace
  cases hspace

/-- **The header of a link is read** where it is one by itself and ends before what is
suppressed. -/
theorem readHeader_lines_iff (level : Level) :
    readHeader alnum (strip (joinLines ((level.lines .none).takeWhile isPlain))) =
        (level.thrown.className, level.thrown.message.getD []) ↔
      (isFqcn alnum level.thrown.className = true ∧
        ∀ m ∈ level.thrown.message, m ≠ [] ∧ strip m = m) ∧
      (level.suppressed = [] ∨ level.own ≠ [] ∨ level.elided ≠ none) := by
  have hheader : joinLines (level.part .none).header = level.thrown.toText :=
    joinLines_header (level.part .none)
  by_cases hbody : level.own ≠ [] ∨ level.elided ≠ none
  · rw [Level.lines, Part.takeWhile_plain _ hbody, hheader, readHeader_toText_iff]
    exact ⟨fun h => ⟨h, .inr hbody⟩, And.left⟩
  · rw [not_or, not_not, not_not] at hbody
    have hlines : (level.part .none).lines = (level.part .none).header := by
      rw [Part.lines, show (level.part .none).own = [] from hbody.1,
        show (level.part .none).elided = none from hbody.2]
      exact List.append_nil _
    rw [Level.lines, hlines,
      List.takeWhile_append_of_pos (List.all_eq_true.1 (level.part .none).header_plain)]
    cases hsuppressed : level.suppressed with
    | nil =>
      rw [List.flatMap_nil, List.takeWhile_nil, List.append_nil, hheader, readHeader_toText_iff]
      exact ⟨fun h => ⟨h, .inl rfl⟩, And.left⟩
    | cons part parts =>
      obtain ⟨s, hs, hne, hmore⟩ := takeWhile_suppressed
        (level.deeper part (hsuppressed ▸ List.mem_cons_self)) (parts.flatMap Part.lines)
      have hheader_ne : (level.part .none).header ≠ [] := List.splitOn_ne_nil _ _
      rw [List.flatMap_cons, joinLines_append hheader_ne hne, hheader, hmore]
      refine ⟨fun h => absurd h (readHeader_append_ne alnum level.thrown hs), fun h => ?_⟩
      rcases h.2 with hnil | hown | helided
      · exact absurd hnil (List.cons_ne_nil _ _)
      · exact absurd hbody.1 hown
      · exact absurd hbody.2 helided

/-! ## Frames that are read -/

theorem stripModule_append (a b : Text) :
    stripModule (a ++ '/' :: b) = if '/' ∈ a then stripModule a ++ '/' :: b else b := by
  rw [stripModule, if_pos (by simp)]
  split
  case isTrue hmem =>
    have hne : a.dropWhile (· ≠ '/') ≠ [] := fun hnil => by
      have hall := List.dropWhile_eq_nil_iff.1 hnil '/' hmem
      simp at hall
    rw [List.dropWhile_append, if_neg (by simpa using hne), List.tail_append_of_ne_nil hne,
      stripModule, if_pos hmem]
  case isFalse hmem =>
    have hall : (a.all fun c => decide (c ≠ '/')) = true := by
      rw [List.all_eq_true]
      intro c hc
      rw [decide_eq_true_eq]
      rintro rfl
      exact hmem hc
    rw [dropWhile_append_stop hall (by decide), List.tail_cons]

theorem length_stripModule_lt {target : Text} (h : '/' ∈ target) :
    (stripModule target).length < target.length := by
  have hle := (List.dropWhile_suffix (fun c => decide (c ≠ '/')) (l := target)).length_le
  have hpos : 0 < target.length := List.length_pos_of_mem h
  rw [stripModule, if_pos h, List.length_tail]
  omega

/-- **A binary name is left of a frame** that names no loader, and no module or one without a
slash. -/
theorem stripModule_qualified_iff (e : StackTraceElement) :
    stripModule e.qualified = e.target ↔ e.classLoaderName = [] ∧
      '/' ∉ if e.moduleName = [] then e.target else e.moduleName := by
  rw [StackTraceElement.qualified, StackTraceElement.qualifier]
  by_cases hloader : e.classLoaderName = []
  · rw [if_pos hloader, List.nil_append]
    by_cases hmodule : e.moduleName = []
    · rw [if_pos hmodule, if_pos hmodule]
      constructor
      · intro h
        refine ⟨hloader, fun hmem => ?_⟩
        have hshort := length_stripModule_lt hmem
        rw [h] at hshort
        exact lt_irrefl _ hshort
      · rintro ⟨-, hmem⟩
        rw [stripModule, if_neg hmem]
    · rw [if_neg hmodule, if_neg hmodule, stripModule_append]
      split
      case isTrue hmem =>
        refine ⟨fun h => ?_, fun h => absurd hmem h.2⟩
        have hlength := congrArg List.length h
        simp only [List.length_append, List.length_cons] at hlength
        omega
      case isFalse hmem => exact iff_of_true rfl ⟨hloader, hmem⟩
  · rw [if_neg hloader, if_neg (by simp), stripModule_append, if_pos (by simp)]
    refine ⟨fun h => ?_, fun h => absurd h.1 hloader⟩
    have hlength := congrArg List.length h
    simp only [List.length_append, List.length_cons] at hlength
    omega

/-! ## Links that are read -/

theorem Level.filterMap_frameOf (level : Level) : (level.lines .none).filterMap frameOf =
    (level.own ++ level.suppressed.flatMap Part.own).map
      fun e => (e.qualified, some e.location) := by
  rw [Level.lines, List.filterMap_append, Part.filterMap_frameOf, List.map_append,
    List.filterMap_flatMap, List.map_flatMap]
  simp only [Part.filterMap_frameOf]
  rfl

theorem Level.filterMap_elisionOf (level : Level) : (level.lines .none).filterMap elisionOf =
    level.elided.toList ++ level.suppressed.filterMap Part.elided := by
  rw [Level.lines, List.filterMap_append, Part.filterMap_elisionOf, List.filterMap_flatMap]
  simp only [Part.filterMap_elisionOf]
  rw [List.filterMap_eq_flatMap_toList]
  rfl

/-- **A link is read** under the conditions of `Level.Inverts`. -/
theorem linkOf_lines_iff (level : Level) :
    linkOf alnum (level.lines .none) = level.link ↔ level.Inverts alnum := by
  have hheader := readHeader_lines_iff alnum level
  have helided : (level.elided.toList ++ level.suppressed.filterMap Part.elided).getLast? =
      level.elided ↔ ∀ n, (level.suppressed.filterMap Part.elided).getLast? = some n →
        level.elided = some n := by
    rw [List.getLast?_append]
    cases (level.suppressed.filterMap Part.elided).getLast? with
    | none => cases level.elided <;> simp
    | some n => simp [eq_comm]
  have hframes : (level.own ++ level.suppressed.flatMap Part.own).map
      (fun e => stripModule e.qualified) = level.own.map (·.target) ↔
        (∀ e ∈ level.own, stripModule e.qualified = e.target) ∧
          ∀ part ∈ level.suppressed, part.own = [] := by
    rw [← List.flatMap_eq_nil_iff, ← List.map_inj_left]
    constructor
    · intro h
      have hlength := congrArg List.length h
      have hnil : level.suppressed.flatMap Part.own = [] := by
        rw [← List.length_eq_zero_iff]
        simp only [List.length_map, List.length_append] at hlength
        omega
      rw [hnil, List.append_nil] at h
      exact ⟨h, hnil⟩
    · rintro ⟨h, hnil⟩
      rw [hnil, List.append_nil, h]
  rw [linkOf_eq, Level.link, ExceptionLink.mk.injEq, level.filterMap_frameOf,
    level.filterMap_elisionOf, List.map_map, List.map_map, helided]
  constructor
  · rintro ⟨hname, hmessage, htargets, hcount, -⟩
    obtain ⟨⟨hclass, hsaid⟩, hends⟩ := hheader.1 (Prod.ext hname hmessage)
    obtain ⟨hown, hsuppressed⟩ := hframes.1 htargets
    exact ⟨hclass, hsaid, fun e he => (stripModule_qualified_iff e).1 (hown e he), hends,
      hsuppressed, hcount⟩
  · intro h
    have hread := hheader.2 ⟨⟨h.className, h.message⟩, h.header⟩
    have hnil : level.suppressed.flatMap Part.own = [] :=
      List.flatMap_eq_nil_iff.2 h.suppressedFrames
    refine ⟨congrArg Prod.fst hread, congrArg Prod.snd hread, hframes.2
      ⟨fun e he => (stripModule_qualified_iff e).2 (h.frames e he), h.suppressedFrames⟩,
      h.suppressedElided, ?_⟩
    rw [hnil, List.append_nil]
    rfl

/-- **Parsing inverts printing** for the exceptions whose levels all meet `Level.Inverts`, and for
no others. -/
theorem chain_printed_iff (t : Throwable) :
    (parseStacktrace alnum (some t.printStackTrace)).chain = (t.levels []).map Level.link ↔
      ∀ level ∈ t.levels [], level.Inverts alnum := by
  rw [chain_printStackTrace, List.map_inj_left]
  exact forall₂_congr fun level _ => linkOf_lines_iff alnum level

end

/-- A frame of the application's class loader keeps a slash before its name. -/
theorem loader_leaves_slash : ¬∀ t : Throwable,
    (parseStacktrace (fun _ => false) (some t.printStackTrace)).chain =
      (t.levels []).map Level.link := by
  intro h
  let e : Thrown := {
    className := "com.foo.BarException".toList
    trace := [{
      classLoaderName := "app".toList
      target := "com.foo.Bar.baz".toList
      location := "Bar.java:42".toList }] }
  have hread := h (.root e [])
  have hframes : (parseStacktrace (fun _ => false)
      (some (Throwable.root e []).printStackTrace)).chain.map ExceptionLink.frames =
        [["/com.foo.Bar.baz".toList]] := by decide
  rw [hread] at hframes
  exact absurd hframes (by decide)

end ResidentCrm.Dlt.Stacktrace
