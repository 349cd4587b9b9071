import ResidentCrm.Lib.Split

/-!
# Stack traces

The parser of `dlt/stacktrace.py`: the lines of one link, its header, and the chain of causes. What
`\w` is beyond ASCII is the parameter `alnum`. A count of elided frames of more than
`Text.maxIntDigits` digits, at which `int` raises, is left out.
-/

namespace ResidentCrm.Dlt.Stacktrace

open Text

/-! ## Lines -/

/-- A character of a frame's target. -/
def isTarget (c : Char) : Bool := !isSpace c && c != '('

/-- What stands in the parentheses that a text starts and ends with. -/
def inParentheses : Text → Option Text
  | '(' :: inner => if inner.getLast? = some ')' then some inner.dropLast else none
  | _ => none

/-- `_FRAME_RE`: the target and the location of a frame. -/
def frameOf (line : Text) : Option (Text × Option Text) :=
  match line.dropWhile isSpace with
  | 'a' :: 't' :: after =>
    let named := after.dropWhile isSpace
    let target := named.takeWhile isTarget
    let rest := rstrip (named.dropWhile isTarget)
    if named = after ∨ target = [] then none
    else if rest = [] then some (target, none)
    else (inParentheses rest).map fun location => (target, some location)
  | _ => none

/-- `_ELIDED_RE`: the frames left out. -/
def elidedOf (line : Text) : Option ℕ :=
  match line.dropWhile isSpace with
  | '.' :: '.' :: '.' :: after =>
    let counted := after.dropWhile isSpace
    let count := counted.takeWhile isDigit
    let said := counted.dropWhile isDigit
    let more := said.dropWhile isSpace
    if counted = after ∨ count = [] ∨ more = said then none
    else if rstrip more = "more".toList then some (toNat count) else none
  | _ => none

/-- `_strip_module`. -/
def stripModule (target : Text) : Text :=
  if '/' ∈ target then (target.dropWhile (· ≠ '/')).tail else target

section

variable (alnum : Char → Bool)

/-- A part of a binary name. -/
def isNamePart : Text → Bool
  | [] => false
  | c :: part =>
    (c.isAlpha || c == '_' || c == '$') && part.all fun d => isWord alnum d || d == '$'

/-- `_FQCN_RE`; its end may stand before a line break. -/
def isFqcn (name : Text) : Bool :=
  let name := if name.getLast? = some '\n' then name.dropLast else name
  (name.splitOn '.').all (isNamePart alnum)

/-! ## Links -/

/-- One `Caused by:` level. -/
structure ExceptionLink where
  fqcn : Text
  message : Text
  frames : List Text
  elided : Option ℕ
  locations : List (Option Text)
deriving DecidableEq, Repr

/-- What `_parse_link` has read of a link. -/
structure Reading where
  headerLines : List Text := []
  frames : List Text := []
  locations : List (Option Text) := []
  elided : Option ℕ := none
  inFrames : Bool := false

def Reading.next (r : Reading) (line : Text) : Reading :=
  match frameOf line with
  | some (target, location) =>
    { r with
      inFrames := true
      frames := r.frames ++ [stripModule target]
      locations := r.locations ++ [location] }
  | none =>
    match elidedOf line with
    | some count => { r with inFrames := true, elided := some count }
    | none => if r.inFrames then r else { r with headerLines := r.headerLines ++ [line] }

/-- The class name and the message of a header. -/
def readHeader (header : Text) : Text × Text :=
  let (candidate, message) := partition ": ".toList header
  if header = [] then ([], header)
  else if isFqcn alnum candidate then (candidate, strip message)
  else if isFqcn alnum header then (header, [])
  else ([], header)

/-- `_parse_link`, of the lines of a block. -/
def linkOf (lines : List Text) : ExceptionLink :=
  let r := lines.foldl Reading.next {}
  let (fqcn, message) := readHeader alnum (strip (joinLines r.headerLines))
  { fqcn, message, frames := r.frames, elided := r.elided, locations := r.locations }

def parseLink (block : Text) : ExceptionLink := linkOf alnum (block.splitOn '\n')

/-! ## Traces -/

/-- A full exception chain, outermost link first. -/
structure ParsedTrace where
  chain : List ExceptionLink
  truncated : Bool
deriving DecidableEq, Repr

namespace ParsedTrace

variable (trace : ParsedTrace)

def root : Option ExceptionLink := trace.chain.getLast?

def rootFrames : List Text := (trace.root.map ExceptionLink.frames).getD []

end ParsedTrace

/-- `_CAUSED_BY`, after its line break. -/
def causedBy : Text := "Caused by: ".toList

/-- `parse_stacktrace`. -/
def parseStacktrace (text : Option Text) : ParsedTrace :=
  let text := text.getD []
  if strip text = [] then { chain := [], truncated := true }
  else
    let chain := (split ('\n' :: causedBy) text).map (parseLink alnum)
    { chain
      truncated := chain.getLast?.all fun last => last.frames = [] && last.elided = none }

end

/-! ## Reading lines -/

/-- A line that is neither a frame nor an elision. -/
def isPlain (line : Text) : Bool := (frameOf line).isNone && (elidedOf line).isNone

/-- The elision of a line that is no frame. -/
def elisionOf (line : Text) : Option ℕ := if (frameOf line).isSome then none else elidedOf line

theorem isPlain_of_causedBy {line : Text} (h : causedBy <+: line) : isPlain line = true := by
  obtain ⟨rest, rfl⟩ := h
  have hspace : isSpace 'C' = false := by decide
  have hdrop : (causedBy ++ rest).dropWhile isSpace = causedBy ++ rest := by
    change ('C' :: ("aused by: ".toList ++ rest)).dropWhile isSpace = _
    rw [List.dropWhile_cons, hspace]
    rfl
  rw [isPlain, frameOf, elidedOf, hdrop]
  rfl

theorem lines_of_blank {line : Text} (h : ∀ c ∈ line, isSpace c = true) :
    frameOf line = none ∧ elidedOf line = none := by
  have hdrop : line.dropWhile isSpace = [] := List.dropWhile_eq_nil_iff.2 h
  rw [frameOf, elidedOf, hdrop]
  exact ⟨rfl, rfl⟩

theorem takeWhile_of_all {α : Type} {p : α → Bool} {l : List α} (h : l.all p = true) :
    l.takeWhile p = l := by
  rw [List.takeWhile_eq_self_iff]
  exact List.all_eq_true.1 h

theorem takeWhile_append_of_not_all {α : Type} {p : α → Bool} {l : List α} (h : l.all p = false)
    (m : List α) : (l ++ m).takeWhile p = l.takeWhile p := by
  induction l with
  | nil => cases h
  | cons x l ih =>
    rw [List.cons_append, List.takeWhile_cons, List.takeWhile_cons]
    cases hx : p x with
    | true => rw [if_pos rfl, if_pos rfl, ih (by simpa [hx] using h)]
    | false => rfl

/-- What the lines of a link come to. -/
theorem foldl_next (lines : List Text) (r : Reading) :
    lines.foldl Reading.next r =
      { headerLines := r.headerLines ++ if r.inFrames then [] else lines.takeWhile isPlain
        frames := r.frames ++ (lines.filterMap frameOf).map fun frame => stripModule frame.1
        locations := r.locations ++ (lines.filterMap frameOf).map Prod.snd
        elided := (lines.filterMap elisionOf).getLast?.or r.elided
        inFrames := r.inFrames || lines.any fun line => !isPlain line } := by
  induction lines generalizing r with
  | nil => cases r; simp
  | cons line lines ih =>
    rw [List.foldl_cons, ih, Reading.next]
    cases hframe : frameOf line with
    | some frame =>
      obtain ⟨target, location⟩ := frame
      simp [isPlain, elisionOf, hframe]
    | none =>
      cases helided : elidedOf line with
      | some count =>
        cases hlast : (lines.filterMap elisionOf).getLast? <;>
          simp [isPlain, elisionOf, hframe, helided, List.getLast?_cons, hlast]
      | none =>
        cases hin : r.inFrames <;> simp [isPlain, elisionOf, hframe, helided, hin]

/-- **A link by its lines**: the header up to the first frame or elision, every frame, the last
elision. -/
theorem linkOf_eq (alnum : Char → Bool) (lines : List Text) :
    linkOf alnum lines =
      { fqcn := (readHeader alnum (strip (joinLines (lines.takeWhile isPlain)))).1
        message := (readHeader alnum (strip (joinLines (lines.takeWhile isPlain)))).2
        frames := (lines.filterMap frameOf).map fun frame => stripModule frame.1
        locations := (lines.filterMap frameOf).map Prod.snd
        elided := (lines.filterMap elisionOf).getLast? } := by
  rw [linkOf, foldl_next]
  simp

/-! ## The lines of a trace -/

theorem splitOn_joinLines {lines : List Text} (hne : lines ≠ []) (hlines : ∀ l ∈ lines, '\n' ∉ l) :
    (joinLines lines).splitOn '\n' = lines :=
  List.splitOn_intercalate '\n' hlines hne

/-- **The chain by the lines of its text.** -/
theorem chain_joinLines (alnum : Char → Bool) {first : Text} {rest : List Text}
    (hlines : ∀ l ∈ first :: rest, '\n' ∉ l) (hblank : strip (joinLines (first :: rest)) ≠ []) :
    (parseStacktrace alnum (some (joinLines (first :: rest)))).chain =
      (blocksFrom causedBy [first] rest).map (linkOf alnum) := by
  have hmark : '\n' ∉ causedBy := by decide
  have hsplit : split ('\n' :: causedBy) (joinLines (first :: rest)) =
      (blocksFrom causedBy [first] rest).map joinLines :=
    split_joinLines hmark (List.cons_ne_nil first []) hlines (by simp)
  rw [parseStacktrace, Option.getD_some, if_neg hblank]
  dsimp only
  rw [hsplit, List.map_map]
  refine List.map_congr_left fun block hblock => ?_
  obtain ⟨hne, hblock⟩ := mem_blocksFrom (List.cons_ne_nil first []) hlines block hblock
  rw [Function.comp_apply, parseLink, splitOn_joinLines hne hblock]

end ResidentCrm.Dlt.Stacktrace
