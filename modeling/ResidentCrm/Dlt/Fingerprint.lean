import ResidentCrm.Dlt.CodeCheck
import ResidentCrm.Dlt.Stacktrace
import Mathlib.Logic.Relation

/-!
# Fingerprints

The rest of `dlt/stacktrace.py`, the business code of `dlt/classify.py` and the fingerprint of
`build_failure`: the frames of the root cause that are the application's, the first of them joined
with the root class and the code, and the digest of that.

A fingerprint is what it is by the root cause's class, code and first frames, whatever the lines,
the wrappers and the frames of others are (`fingerprint_laws`). The locations beside the frames are
in step with them unless one ends in digits that are no decimals.
-/

namespace ResidentCrm.Dlt.Stacktrace

open Text

/-! ## Frames -/

/-- The settings that a fingerprint is computed with. -/
structure FingerprintSettings where
  packages : List Text := ["com.uidai.".toList, "in.gov.uidai.".toList]
  boilerplate : List Text := ["in.gov.uidai.common.factory.CommonErrorFactory".toList]
  frameCount : ℕ := 5
  frameCount_pos : 0 < frameCount := by decide
  includesType : Bool := false

/-- `prefix\d+` somewhere in a text. -/
def hasNumbered (start s : Text) : Bool :=
  s.tails.any fun t => start.isPrefixOf t && (t.drop start.length).head?.any isDigit

/-- `is_synthetic`. -/
def isSynthetic (target : Text) : Bool :=
  has "$$SpringCGLIB".toList target || has "$$EnhancerBySpringCGLIB".toList target ||
    has "$$FastClassBySpringCGLIB".toList target || has "$$Lambda".toList target ||
    hasNumbered "GeneratedMethodAccessor".toList target ||
    hasNumbered "GeneratedConstructorAccessor".toList target ||
    hasNumbered "$Proxy".toList target

/-- `text.startswith(prefixes)` -/
def startsWith (prefixes : List Text) (text : Text) : Bool := prefixes.any (·.isPrefixOf text)

section

variable (settings : FingerprintSettings)

/-- `_is_app_frame`. -/
def isAppFrame (frame : Text) : Bool :=
  frame ≠ [] && startsWith settings.packages frame && !isSynthetic frame &&
    !startsWith settings.boilerplate frame

def normaliseFrames (frames : List Text) : List Text := frames.filter (isAppFrame settings)

end

/-- The digits of `str.isdigit` that are no decimals: raised, lowered, circled and the like. -/
def isOtherDigit (c : Char) : Bool :=
  let n := c.toNat
  n = 0xb2 || n = 0xb3 || n = 0xb9 || (0x1369 ≤ n && n ≤ 0x1371) || n = 0x19da || n = 0x2070 ||
    (0x2074 ≤ n && n ≤ 0x2079) || (0x2080 ≤ n && n ≤ 0x2089) || (0x2460 ≤ n && n ≤ 0x2468) ||
    (0x2474 ≤ n && n ≤ 0x247c) || (0x2488 ≤ n && n ≤ 0x2490) || n = 0x24ea ||
    (0x24f5 ≤ n && n ≤ 0x24fd) || n = 0x24ff || (0x2776 ≤ n && n ≤ 0x277e) ||
    (0x2780 ≤ n && n ≤ 0x2788) || (0x278a ≤ n && n ≤ 0x2792) || (0x10a40 ≤ n && n ≤ 0x10a43) ||
    (0x10e60 ≤ n && n ≤ 0x10e68) || (0x11052 ≤ n && n ≤ 0x1105a) || (0x1f100 ≤ n && n ≤ 0x1f10a)

/-- `text.isdigit()` -/
def allDigits (text : Text) : Bool :=
  text ≠ [] && text.all fun c => isDigit c || isOtherDigit c

/-- `split_location`: the file and the line; `none` where `int` raises. -/
def splitLocation (text : Option Text) : Option (Option Text × Option ℕ) :=
  let value := strip (text.getD [])
  let name := beforeLast ':' value
  let tail := afterLast ':' value
  if value = [] then some (none, none)
  else if ':' ∈ value ∧ allDigits tail then
    if tail.all isDigit ∧ tail.length ≤ maxIntDigits then
      some (if name = [] then none else some name, some (toNat tail))
    else none
  else some (some value, none)

/-- An application frame with its line. -/
structure LocatedFrame extends FrameLocation where
  line : Option ℕ := none
deriving DecidableEq, Repr

/-- The body of the loop of `normalise_frame_locations`. -/
def locateFrame (frame : Text) (location : Option (Option Text)) : Option LocatedFrame :=
  (splitLocation location.join).map fun (file, line) => { target := frame, file, line }

/-- `normalise_frame_locations`; `none` where it raises. -/
def normaliseFrameLocations (settings : FingerprintSettings) :
    (frames : List Text) → (locations : List (Option Text)) → Option (List LocatedFrame)
  | [], _ => some []
  | frame :: frames, locations =>
    if isAppFrame settings frame then do
      let located ← locateFrame frame locations.head?
      let others ← normaliseFrameLocations settings frames locations.tail
      some (located :: others)
    else normaliseFrameLocations settings frames locations.tail

/-! ## The business code -/

/-- The code in the brackets that a text starts with. -/
def codeHere : Text → Option Text
  | '[' :: rest =>
    let code := rest.takeWhile fun c => c.isUpper || (c.isDigit || c == '_')
    if code.head?.any Char.isUpper ∧ 3 ≤ code.length ∧ rest[code.length]? = some ']' then some code
    else none
  | _ => none

/-- `extract_business_code`. -/
def extractBusinessCode (texts : List Text) : Option Text :=
  texts.findSome? fun text => text.tails.findSome? codeHere

/-- The classes that `DLT_CLASS_MAP` may give. -/
inductive FailureClass where
  | business
  | codeDefect
  | technical
  | unknown
deriving DecidableEq, Repr

/-- What classification reads of its settings. -/
structure ClassSettings where
  businessExceptions : List Text := ["in.gov.uidai.common.exception.BusinessException".toList]
  lookupClass : Text → Option FailureClass

def isBusinessException (classes : ClassSettings) (fqcn : Text) : Bool :=
  fqcn ≠ [] && (fqcn ∈ classes.businessExceptions || "BusinessException".toList.isSuffixOf fqcn)

/-- The `business_code` of `classify`. -/
def businessCode (classes : ClassSettings) (root : Option ExceptionLink) (exceptionMessage : Text) :
    Option Text :=
  let fqcn := (root.map ExceptionLink.fqcn).getD []
  let message := (root.map ExceptionLink.message).getD []
  let code := extractBusinessCode [message, exceptionMessage]
  if fqcn = [] then extractBusinessCode [exceptionMessage]
  else if isBusinessException classes fqcn then code
  else
    match classes.lookupClass fqcn with
    | some .codeDefect | some .technical => none
    | some .business => code
    | _ =>
      if has "BusinessException".toList message || classes.businessExceptions.any (has · message)
      then code else none

/-! ## The fingerprint -/

section

variable (digest : Text → Text) (settings : FingerprintSettings)

/-- The dimensions that come after the frames. -/
def laterParts (typeId service : Option Text) : List Text :=
  let normalisedType := strip (typeId.getD [])
  let normalisedService := strip (service.getD [])
  (if normalisedType ≠ [] ∧ settings.includesType then [normalisedType] else []) ++
    (if normalisedService ≠ [] then ["service:".toList ++ normalisedService] else [])

/-- `compute_fingerprint`. -/
def computeFingerprint (rootFqcn : Option Text) (frames : List Text) (businessCode : Text)
    (limit : Option ℤ) (typeId service : Option Text) : Text :=
  let count := match limit with
    | none => settings.frameCount
    | some limit => (max 1 limit).toNat
  digest <| ['|'].intercalate <|
    [strip (rootFqcn.getD []), strip businessCode, joinLines (frames.take count)] ++
      laterParts settings typeId service

/-- The fingerprint of `build_failure`, and of `fingerprinted` where there is a service. -/
def fingerprintOf (alnum : Char → Bool) (classes : ClassSettings) (exceptionMessage : Text)
    (typeId service : Option Text) (stacktrace : Option Text) : Text :=
  let trace := parseStacktrace alnum stacktrace
  computeFingerprint digest settings (trace.root.map ExceptionLink.fqcn)
    (normaliseFrames settings trace.rootFrames)
    ((businessCode classes trace.root exceptionMessage).getD []) none typeId service

end

/-! ## Changes that leave the failure site alone -/

/-- A line of a trace. -/
structure Line where
  text : Text
  oneLine : '\n' ∉ text

/-- The text of a trace. -/
def textOf (lines : List Line) : Text := joinLines (lines.map Line.text)

/-- Between the lines before and after stands no part of a header: a frame or an elision is above in
the same link, or the link goes on with one, or ends. -/
def AmongFrames (before after : List Line) : Prop :=
  (∃ above line below, before = above ++ line :: below ∧ isPlain line.text = false ∧
    ∀ l ∈ below, ¬causedBy <+: l.text) ∨
  ∀ line ∈ after.head?, isPlain line.text = false ∨ causedBy <+: line.text

/-- A change to the lines of a trace. -/
inductive Edit (settings : FingerprintSettings) : List Line → List Line → Prop
  /-- Exceptions are wrapped around the trace. -/
  | wrap {outer rest : List Line} {first caused : Line} (houter : outer ≠ [])
    (hcaused : caused.text = causedBy ++ first.text) :
    Edit settings (first :: rest) (outer ++ caused :: rest)
  /-- A frame gets another location. -/
  | relocate {before after : List Line} {line line' : Line} {target : Text}
    {location location' : Option Text} (hline : frameOf line.text = some (target, location))
    (hline' : frameOf line'.text = some (target, location')) :
    Edit settings (before ++ line :: after) (before ++ line' :: after)
  /-- A frame that is not the application's is inserted. -/
  | insert {before after : List Line} {frame : Line} {target : Text} {location : Option Text}
    (hbefore : before ≠ []) (hframe : frameOf frame.text = some (target, location))
    (hother : isAppFrame settings (stripModule target) = false)
    (hamong : AmongFrames before after) :
    Edit settings (before ++ after) (before ++ frame :: after)

/-- What a fingerprint reads of a link. -/
structure Site where
  fqcn : Text
  message : Text
  frames : List Text

section

variable (alnum : Char → Bool) (settings : FingerprintSettings)

def siteOf (block : List Text) : Site where
  fqcn := (linkOf alnum block).fqcn
  message := (linkOf alnum block).message
  frames := normaliseFrames settings (linkOf alnum block).frames

/-- The lines of the last link. -/
def rootBlock : List Line → List Text
  | [] => []
  | first :: rest => (rest.map Line.text).foldl (lastBlock causedBy) [first.text]

/-- Blocks whose links have one header and one list of application frames, and keep them when they
go on. -/
structure SameSoFar (block block' : List Text) : Prop where
  header : block.takeWhile isPlain = block'.takeWhile isPlain
  plain : block.all isPlain = block'.all isPlain
  frames : normaliseFrames settings ((block.filterMap frameOf).map fun f => stripModule f.1) =
    normaliseFrames settings ((block'.filterMap frameOf).map fun f => stripModule f.1)

variable {settings}

theorem SameSoFar.refl (block : List Text) : SameSoFar settings block block := ⟨rfl, rfl, rfl⟩

theorem SameSoFar.step {block block' : List Text} (h : SameSoFar settings block block')
    (line : Text) :
    SameSoFar settings (lastBlock causedBy block line) (lastBlock causedBy block' line) := by
  rw [lastBlock, lastBlock]
  split
  · exact .refl _
  · refine ⟨?_, ?_, ?_⟩
    · cases hall : block.all isPlain with
      | true =>
        have heq := h.header
        rw [takeWhile_of_all hall, takeWhile_of_all (h.plain ▸ hall)] at heq
        rw [heq]
      | false =>
        rw [takeWhile_append_of_not_all hall, takeWhile_append_of_not_all (h.plain ▸ hall),
          h.header]
    · rw [List.all_append, List.all_append, h.plain]
    · have hframes := h.frames
      simp only [normaliseFrames, List.filterMap_append, List.map_append, List.filter_append]
        at hframes ⊢
      rw [hframes]

theorem SameSoFar.foldl {lines block block' : List Text} (h : SameSoFar settings block block') :
    SameSoFar settings (lines.foldl (lastBlock causedBy) block)
      (lines.foldl (lastBlock causedBy) block') := by
  induction lines generalizing block block' with
  | nil => exact h
  | cons line lines ih => exact ih (h.step line)

theorem SameSoFar.site_eq {block block' : List Text} (h : SameSoFar settings block block') :
    siteOf alnum settings block = siteOf alnum settings block' := by
  rw [siteOf, siteOf, linkOf_eq, linkOf_eq]
  dsimp only
  rw [h.header, h.frames]

/-! ## One site -/

theorem not_causedBy {line : Text} (h : isPlain line = false) :
    causedBy.isPrefixOf line = false := by
  rw [← Bool.not_eq_true, List.isPrefixOf_iff_prefix]
  intro hstarts
  rw [isPlain_of_causedBy hstarts] at h
  cases h

theorem filterMap_frame {line target : Text} {location : Option Text}
    (h : frameOf line = some (target, location)) (block : List Text) :
    ((block ++ [line]).filterMap frameOf).map (fun f => stripModule f.1) =
      (block.filterMap frameOf).map (fun f => stripModule f.1) ++ [stripModule target] := by
  rw [List.filterMap_append, List.map_append]
  simp [h]

theorem plain_of_frame {line target : Text} {location : Option Text}
    (h : frameOf line = some (target, location)) : isPlain line = false := by
  simp [isPlain, h]

/-- Frames of one target are one to the fingerprint. -/
theorem sameSoFar_relocate {line line' target : Text} {location location' : Option Text}
    (hline : frameOf line = some (target, location))
    (hline' : frameOf line' = some (target, location')) (block : List Text) :
    SameSoFar settings (block ++ [line]) (block ++ [line']) where
  header := by
    have hplain := plain_of_frame hline
    have hplain' := plain_of_frame hline'
    cases hall : block.all isPlain with
    | true =>
      rw [List.takeWhile_append_of_pos (List.all_eq_true.1 hall),
        List.takeWhile_append_of_pos (List.all_eq_true.1 hall)]
      simp [hplain, hplain']
    | false => rw [takeWhile_append_of_not_all hall, takeWhile_append_of_not_all hall]
  plain := by simp [plain_of_frame hline, plain_of_frame hline']
  frames := by rw [filterMap_frame hline, filterMap_frame hline']

/-- A frame of others, below a frame or an elision. -/
theorem sameSoFar_insert {line target : Text} {location : Option Text}
    (hline : frameOf line = some (target, location))
    (hother : isAppFrame settings (stripModule target) = false) {block : List Text}
    (hall : block.all isPlain = false) : SameSoFar settings block (block ++ [line]) where
  header := (takeWhile_append_of_not_all hall _).symm
  plain := by simp [plain_of_frame hline, hall]
  frames := by
    rw [filterMap_frame hline, normaliseFrames, normaliseFrames, List.filter_append]
    simp [hother]

/-- A frame of others, where the link goes on with a frame or an elision. -/
theorem sameSoFar_before {line target next : Text} {location : Option Text}
    (hline : frameOf line = some (target, location))
    (hother : isAppFrame settings (stripModule target) = false) (hnext : isPlain next = false)
    (block : List Text) : SameSoFar settings (block ++ [next]) (block ++ [line] ++ [next]) where
  header := by
    have hplain := plain_of_frame hline
    rw [List.append_assoc]
    cases hall : block.all isPlain with
    | true =>
      rw [List.takeWhile_append_of_pos (List.all_eq_true.1 hall),
        List.takeWhile_append_of_pos (List.all_eq_true.1 hall)]
      simp [hplain, hnext]
    | false => rw [takeWhile_append_of_not_all hall, takeWhile_append_of_not_all hall]
  plain := by simp [plain_of_frame hline, hnext]
  frames := by
    rw [List.filterMap_append, List.filterMap_append, List.map_append, List.map_append,
      filterMap_frame hline]
    simp [normaliseFrames, List.filter_append, hother]

/-- At its end, a link's site is the same with a frame of others. -/
theorem siteOf_append {line target : Text} {location : Option Text}
    (hline : frameOf line = some (target, location))
    (hother : isAppFrame settings (stripModule target) = false) (block : List Text) :
    siteOf alnum settings (block ++ [line]) = siteOf alnum settings block := by
  have hplain := plain_of_frame hline
  have hheader : (block ++ [line]).takeWhile isPlain = block.takeWhile isPlain := by
    cases hall : block.all isPlain with
    | true =>
      rw [List.takeWhile_append_of_pos (List.all_eq_true.1 hall), takeWhile_of_all hall]
      simp [hplain]
    | false => rw [takeWhile_append_of_not_all hall]
  rw [siteOf, siteOf, linkOf_eq, linkOf_eq]
  dsimp only
  rw [hheader, filterMap_frame hline]
  simp [normaliseFrames, List.filter_append, hother]

theorem rootBlock_append {before : List Line} (h : before ≠ []) (after : List Line) :
    rootBlock (before ++ after) =
      (after.map Line.text).foldl (lastBlock causedBy) (rootBlock before) := by
  cases before with
  | nil => exact (h rfl).elim
  | cons first rest =>
    rw [List.cons_append, rootBlock, rootBlock, List.map_append, List.foldl_append]

theorem lastBlock_of_not_plain {line : Text} (h : isPlain line = false) (block : List Text) :
    lastBlock causedBy block line = block ++ [line] := by
  rw [lastBlock, not_causedBy h]
  rfl

/-- A link without a further cause goes on to the end. -/
theorem foldl_lastBlock {below : List Line} (h : ∀ l ∈ below, ¬causedBy <+: l.text)
    (block : List Text) : (below.map Line.text).foldl (lastBlock causedBy) block =
      block ++ below.map Line.text := by
  induction below generalizing block with
  | nil => simp
  | cons line below ih =>
    have hline : causedBy.isPrefixOf line.text = false := by
      rw [← Bool.not_eq_true, List.isPrefixOf_iff_prefix]
      exact h line List.mem_cons_self
    rw [List.map_cons, List.foldl_cons, lastBlock, hline,
      if_neg Bool.false_ne_true, ih fun l hl => h l (List.mem_cons_of_mem _ hl)]
    simp

/-- Above stands a frame or an elision of the link. -/
theorem rootBlock_not_plain {above below : List Line} {line : Line}
    (hline : isPlain line.text = false) (hbelow : ∀ l ∈ below, ¬causedBy <+: l.text) :
    (rootBlock (above ++ line :: below)).all isPlain = false := by
  have hmem : line.text ∈ rootBlock (above ++ line :: below) := by
    cases above with
    | nil =>
      rw [List.nil_append, rootBlock, foldl_lastBlock hbelow]
      exact List.mem_append_left _ (List.mem_singleton_self _)
    | cons first rest =>
      rw [rootBlock_append (List.cons_ne_nil _ _), List.map_cons, List.foldl_cons,
        lastBlock_of_not_plain hline, foldl_lastBlock hbelow]
      exact List.mem_append_left _ (List.mem_append_right _ (List.mem_singleton_self _))
  rw [← Bool.not_eq_true, List.all_eq_true]
  exact fun hall => by simp [hall _ hmem] at hline

/-- **A change leaves the site of the failure alone.** -/
theorem siteOf_edit {lines lines' : List Line} (h : Edit settings lines lines') :
    siteOf alnum settings (rootBlock lines) = siteOf alnum settings (rootBlock lines') := by
  cases h with
  | @wrap outer rest first caused houter hcaused =>
    have hmark : causedBy.isPrefixOf (causedBy ++ first.text) = true :=
      List.isPrefixOf_iff_prefix.2 (List.prefix_append _ _)
    rw [rootBlock_append houter, List.map_cons, List.foldl_cons, lastBlock, hcaused, hmark,
      if_pos rfl, List.drop_left, rootBlock]
  | @relocate before after line line' target location location' hline hline' =>
    refine SameSoFar.site_eq alnum ?_
    cases before with
    | nil => exact (sameSoFar_relocate hline hline' []).foldl
    | cons first rest =>
      rw [rootBlock_append (List.cons_ne_nil _ _), rootBlock_append (List.cons_ne_nil _ _),
        List.map_cons, List.map_cons, List.foldl_cons, List.foldl_cons,
        lastBlock_of_not_plain (plain_of_frame hline),
        lastBlock_of_not_plain (plain_of_frame hline')]
      exact (sameSoFar_relocate hline hline' _).foldl
  | @insert before after frame target location hbefore hframe hother hamong =>
    rw [rootBlock_append hbefore, rootBlock_append hbefore, List.map_cons, List.foldl_cons,
      lastBlock_of_not_plain (plain_of_frame hframe)]
    obtain ⟨above, line, below, rfl, hline, hbelow⟩ | hnext := hamong
    · exact (sameSoFar_insert hframe hother (rootBlock_not_plain hline hbelow)).foldl.site_eq alnum
    · cases after with
      | nil => exact (siteOf_append alnum hframe hother _).symm
      | cons next after =>
        rw [List.map_cons, List.foldl_cons, List.foldl_cons]
        obtain hplain | hcaused := hnext next rfl
        · rw [lastBlock_of_not_plain hplain, lastBlock_of_not_plain hplain]
          exact (sameSoFar_before hframe hother hplain _).foldl.site_eq alnum
        · rw [lastBlock, lastBlock, if_pos (List.isPrefixOf_iff_prefix.2 hcaused),
            if_pos (List.isPrefixOf_iff_prefix.2 hcaused)]

/-! ## The fingerprint of a site -/

/-- A blank trace is that of a link without a class and without frames. -/
theorem siteOf_of_blank {lines : List Line} (h : strip (textOf lines) = []) :
    siteOf alnum settings (rootBlock lines) = ⟨[], [], []⟩ := by
  have hblank : ∀ line ∈ lines.map Line.text, ∀ c ∈ line, isSpace c = true := fun line hline c hc =>
    strip_eq_nil h c (mem_joinLines hline hc)
  have hplain : ∀ line ∈ lines.map Line.text, isPlain line = true := fun line hline => by
    obtain ⟨hframe, helided⟩ := lines_of_blank (hblank line hline)
    rw [isPlain, hframe, helided]
    rfl
  have hblock : rootBlock lines = lines.map Line.text := by
    cases lines with
    | nil => rfl
    | cons first rest =>
      rw [rootBlock, foldl_lastBlock, List.singleton_append, List.map_cons]
      intro l hl hstarts
      have hspace := hblank l.text (List.mem_map_of_mem (List.mem_cons_of_mem _ hl)) 'C'
        (hstarts.subset (by decide))
      exact absurd hspace (by decide)
  have hframes : (lines.map Line.text).filterMap frameOf = [] := by
    rw [List.filterMap_eq_nil_iff]
    exact fun line hline => (lines_of_blank (hblank line hline)).1
  have hheader : (lines.map Line.text).takeWhile isPlain = lines.map Line.text :=
    List.takeWhile_eq_self_iff.2 hplain
  rw [textOf] at h
  rw [siteOf, linkOf_eq, hblock, hheader, h, hframes]
  rfl

variable (settings) (digest : Text → Text) (classes : ClassSettings) (exceptionMessage : Text)
  (typeId service : Option Text)

def siteFingerprint (site : Site) : Text :=
  computeFingerprint digest settings (some site.fqcn) site.frames
    ((businessCode classes (some ⟨site.fqcn, site.message, [], none, []⟩) exceptionMessage).getD [])
    none typeId service

theorem fingerprintOf_textOf (lines : List Line) :
    fingerprintOf digest settings alnum classes exceptionMessage typeId service
        (some (textOf lines)) =
      siteFingerprint settings digest classes exceptionMessage typeId service
        (siteOf alnum settings (rootBlock lines)) := by
  by_cases hblank : strip (textOf lines) = []
  · rw [siteOf_of_blank alnum hblank, fingerprintOf, parseStacktrace, Option.getD_some,
      if_pos hblank]
    rfl
  · cases lines with
    | nil => exact absurd rfl hblank
    | cons first rest =>
      have hlines : ∀ l ∈ first.text :: rest.map Line.text, '\n' ∉ l := by
        intro l hl
        obtain ⟨line, -, rfl⟩ := List.mem_map.1 (show l ∈ (first :: rest).map Line.text from hl)
        exact line.oneLine
      have hroot : (parseStacktrace alnum (some (textOf (first :: rest)))).root =
          some (linkOf alnum (rootBlock (first :: rest))) := by
        rw [ParsedTrace.root, textOf, List.map_cons, chain_joinLines alnum hlines hblank,
          List.getLast?_map, getLast?_blocksFrom]
        rfl
      rw [fingerprintOf, ParsedTrace.rootFrames, hroot]
      rfl

/-- Changes leave the fingerprint alone, however many. -/
theorem fingerprint_edits {lines lines' : List Line}
    (h : Relation.EqvGen (Edit settings) lines lines') :
    fingerprintOf digest settings alnum classes exceptionMessage typeId service
        (some (textOf lines)) =
      fingerprintOf digest settings alnum classes exceptionMessage typeId service
        (some (textOf lines')) := by
  rw [fingerprintOf_textOf, fingerprintOf_textOf]
  congr 1
  induction h with
  | rel x y hxy => exact siteOf_edit alnum hxy
  | refl x => rfl
  | symm x y _ ih => exact ih.symm
  | trans x y z _ _ hxy hyz => exact hxy.trans hyz

end

/-! ## What a fingerprint tells apart -/

/-- A name or a code with nothing in it that separates the parts of a fingerprint. -/
def IsClean (text : Text) : Prop := ∀ c ∈ text, isSpace c = false ∧ c ≠ '|'

theorem IsClean.strip_eq {text : Text} (h : IsClean text) : strip text = text :=
  strip_of_noSpace fun c hc => (h c hc).1

theorem clean_of_codeChar {c : Char} (h : c.isUpper = true ∨ c.isDigit = true ∨ c = '_') :
    isSpace c = false ∧ c ≠ '|' := by
  have hrange : (65 ≤ c.toNat ∧ c.toNat ≤ 90) ∨ (48 ≤ c.toNat ∧ c.toNat ≤ 57) ∨ c.toNat = 95 := by
    rcases h with h | h | rfl
    · left
      have hvalue : 65 ≤ c.val ∧ c.val ≤ 90 := of_decide_eq_true h
      exact ⟨UInt32.le_iff_toNat_le.1 hvalue.1, UInt32.le_iff_toNat_le.1 hvalue.2⟩
    · right; left
      exact Char.isDigit_iff_toNat.1 h
    · right; right; rfl
  constructor
  · simp only [isSpace, Bool.or_eq_false_iff, Bool.and_eq_false_iff, decide_eq_false_iff_not]
    omega
  · rintro rfl
    exact absurd hrange (by decide)

theorem isClean_of_codeHere {text code : Text} (h : codeHere text = some code) : IsClean code := by
  unfold codeHere at h
  split at h
  · simp only [Option.ite_none_right_eq_some, Option.some.injEq] at h
    obtain ⟨-, rfl⟩ := h
    intro c hc
    have hchar := List.mem_takeWhile_imp hc
    simp only [Bool.or_eq_true, beq_iff_eq] at hchar
    exact clean_of_codeChar hchar
  · cases h

theorem isClean_of_extract {texts : List Text} {code : Text}
    (h : extractBusinessCode texts = some code) : IsClean code := by
  obtain ⟨text, -, htext⟩ := List.exists_of_findSome?_eq_some h
  obtain ⟨here, -, hhere⟩ := List.exists_of_findSome?_eq_some htext
  exact isClean_of_codeHere hhere

/-- A business code is of the classifier's shape. -/
theorem isClean_businessCode (classes : ClassSettings) (root : Option ExceptionLink)
    (exceptionMessage : Text) : IsClean ((businessCode classes root exceptionMessage).getD []) := by
  cases hcode : businessCode classes root exceptionMessage with
  | none => exact fun c hc => nomatch hc
  | some code =>
    simp only [businessCode] at hcode
    split at hcode
    · exact isClean_of_extract hcode
    split at hcode
    · exact isClean_of_extract hcode
    split at hcode
    · cases hcode
    · cases hcode
    · exact isClean_of_extract hcode
    · split at hcode
      · exact isClean_of_extract hcode
      · cases hcode

theorem oneLine_stripModule {target : Text} (h : '\n' ∉ target) : '\n' ∉ stripModule target := by
  rw [stripModule]
  split
  · exact fun hmem => h ((List.dropWhile_suffix _).subset (List.mem_of_mem_tail hmem))
  · exact h

theorem oneLine_of_frame {line target : Text} {location : Option Text}
    (h : frameOf line = some (target, location)) : '\n' ∉ target := by
  have htarget : ∀ s : Text, '\n' ∉ s.takeWhile isTarget := fun s hmem =>
    absurd (List.mem_takeWhile_imp hmem) (by decide)
  unfold frameOf at h
  split at h
  · dsimp only at h
    split at h
    · cases h
    split at h
    · obtain ⟨rfl, -⟩ := Prod.mk.inj (Option.some.inj h)
      exact htarget _
    · obtain ⟨inner, -, hpair⟩ := Option.map_eq_some_iff.1 h
      obtain ⟨rfl, -⟩ := Prod.mk.inj hpair
      exact htarget _
  · cases h

/-- The frames of a parsed trace are of one line each. -/
theorem oneLine_of_rootFrames (alnum : Char → Bool) (stacktrace : Option Text) :
    ∀ frame ∈ (parseStacktrace alnum stacktrace).rootFrames, '\n' ∉ frame := by
  intro frame hframe
  rw [ParsedTrace.rootFrames] at hframe
  cases hroot : (parseStacktrace alnum stacktrace).root with
  | none =>
    rw [hroot] at hframe
    cases hframe
  | some link =>
    rw [hroot, Option.map_some, Option.getD_some] at hframe
    have hlink := List.mem_of_getLast? hroot
    rw [parseStacktrace] at hlink
    dsimp only at hlink
    split at hlink
    · cases hlink
    obtain ⟨block, -, rfl⟩ := List.mem_map.1 hlink
    rw [parseLink, linkOf_eq] at hframe
    obtain ⟨⟨target, location⟩, hmem, rfl⟩ := List.mem_map.1 hframe
    obtain ⟨line, -, hline⟩ := List.mem_filterMap.1 hmem
    exact oneLine_stripModule (oneLine_of_frame hline)

/-! ## The key -/

theorem intercalate_bar (part : Text) (parts : List Text) :
    ['|'].intercalate (part :: parts) = part ++ parts.flatMap ('|' :: ·) := by
  induction parts generalizing part with
  | nil => simp [List.intercalate]
  | cons next parts ih => rw [List.intercalate_cons_cons, ih, List.flatMap_cons]; simp

/-- Joined lines, none of them empty, tell the lines. -/
theorem joinLines_injective {lines lines' : List Text}
    (h : ∀ l ∈ lines, l ≠ [] ∧ '\n' ∉ l) (h' : ∀ l ∈ lines', l ≠ [] ∧ '\n' ∉ l)
    (heq : joinLines lines = joinLines lines') : lines = lines' := by
  have hempty : ∀ {ls : List Text}, (∀ l ∈ ls, l ≠ [] ∧ '\n' ∉ l) → joinLines ls = [] →
      ls = [] := by
    intro ls hls hnil
    cases ls with
    | nil => rfl
    | cons l ls =>
      have hl := hls l List.mem_cons_self
      obtain ⟨c, rest, rfl⟩ := List.exists_cons_of_ne_nil hl.1
      have hmem : c ∈ joinLines ((c :: rest) :: ls) :=
        mem_joinLines List.mem_cons_self List.mem_cons_self
      rw [hnil] at hmem
      cases hmem
  by_cases hnil : lines = []
  · subst hnil
    exact (hempty h' heq.symm).symm
  · by_cases hnil' : lines' = []
    · subst hnil'
      exact hempty h heq
    · rw [← splitOn_joinLines hnil fun l hl => (h l hl).2, heq,
        splitOn_joinLines hnil' fun l hl => (h' l hl).2]

/-- **The parts of a fingerprint are told apart**, where what comes after them is the same. -/
theorem key_injective {root root' code code' : Text} {frames frames' later : List Text}
    (hroot : IsClean root) (hroot' : IsClean root') (hcode : IsClean code) (hcode' : IsClean code')
    (hframes : ∀ f ∈ frames, f ≠ [] ∧ '\n' ∉ f) (hframes' : ∀ f ∈ frames', f ≠ [] ∧ '\n' ∉ f)
    (h : ['|'].intercalate ([root, code, joinLines frames] ++ later) =
      ['|'].intercalate ([root', code', joinLines frames'] ++ later)) :
    root = root' ∧ code = code' ∧ frames = frames' := by
  simp only [List.cons_append, List.nil_append, intercalate_bar, List.flatMap_cons] at h
  obtain ⟨heq, hrest⟩ :=
    append_cons_inj (fun hc => (hroot _ hc).2 rfl) (fun hc => (hroot' _ hc).2 rfl) h
  obtain ⟨heq', hlast⟩ :=
    append_cons_inj (fun hc => (hcode _ hc).2 rfl) (fun hc => (hcode' _ hc).2 rfl) hrest
  exact ⟨heq, heq', joinLines_injective hframes hframes' (List.append_cancel_right hlast)⟩

section

variable (digest : Text → Text) (settings : FingerprintSettings) (alnum : Char → Bool)
  (classes : ClassSettings)

/-- The class of the root cause. -/
def rootClass (stacktrace : Option Text) : Text :=
  (((parseStacktrace alnum stacktrace).root).map ExceptionLink.fqcn).getD []

/-- The business code of a record. -/
def codeOf (exceptionMessage : Text) (stacktrace : Option Text) : Text :=
  (businessCode classes (parseStacktrace alnum stacktrace).root exceptionMessage).getD []

/-- The application frames that count. -/
def countedFrames (stacktrace : Option Text) : List Text :=
  (normaliseFrames settings (parseStacktrace alnum stacktrace).rootFrames).take settings.frameCount

variable {digest}

/-- Fingerprints with one type and one service tell sites apart. -/
theorem site_of_fingerprint (hdigest : Function.Injective digest) {typeId service : Option Text}
    {message message' : Text} {stacktrace stacktrace' : Option Text}
    (hclass : IsClean (rootClass alnum stacktrace))
    (hclass' : IsClean (rootClass alnum stacktrace'))
    (h : fingerprintOf digest settings alnum classes message typeId service stacktrace =
      fingerprintOf digest settings alnum classes message' typeId service stacktrace') :
    rootClass alnum stacktrace = rootClass alnum stacktrace' ∧
      codeOf alnum classes message stacktrace = codeOf alnum classes message' stacktrace' ∧
      countedFrames settings alnum stacktrace = countedFrames settings alnum stacktrace' := by
  have hframes : ∀ text, ∀ f ∈ countedFrames settings alnum text, f ≠ [] ∧ '\n' ∉ f := by
    intro text f hf
    have hmem := List.mem_filter.1 (List.mem_of_mem_take hf)
    have happ := hmem.2
    simp only [isAppFrame, Bool.and_eq_true, decide_eq_true_eq] at happ
    exact ⟨happ.1.1.1, oneLine_of_rootFrames alnum text f hmem.1⟩
  have hcode : ∀ message text, IsClean (codeOf alnum classes message text) := fun message text =>
    isClean_businessCode classes _ message
  have hkey : ['|'].intercalate ([strip (rootClass alnum stacktrace),
        strip (codeOf alnum classes message stacktrace),
        joinLines (countedFrames settings alnum stacktrace)] ++
          laterParts settings typeId service) =
      ['|'].intercalate ([strip (rootClass alnum stacktrace'),
        strip (codeOf alnum classes message' stacktrace'),
        joinLines (countedFrames settings alnum stacktrace')] ++
          laterParts settings typeId service) := hdigest h
  rw [(hcode _ _).strip_eq, (hcode _ _).strip_eq, IsClean.strip_eq hclass,
    IsClean.strip_eq hclass'] at hkey
  exact key_injective hclass hclass' (hcode _ _) (hcode _ _) (hframes _) (hframes _) hkey

end

/-! ## Locations -/

/-- The location of a frame ends in nothing that `int` does not read. -/
def Readable (location : Option Text) : Prop := (splitLocation location).isSome = true

instance : ∀ location, Decidable (Readable location) := fun location =>
  inferInstanceAs (Decidable ((splitLocation location).isSome = true))

section

variable (settings : FingerprintSettings)

/-- The frames with their locations are in step with the frames without. -/
def InStep (frames : List Text) (locations : List (Option Text)) : Prop :=
  ∃ located : List LocatedFrame, normaliseFrameLocations settings frames locations = some located ∧
    located.map (·.target) = normaliseFrames settings frames ∧
    ∀ place ∈ located, ∃ i : ℕ, frames[i]? = some place.target ∧
      splitLocation (locations[i]?).join = some (place.file, place.line)

/-- The location of every frame that is kept is read. -/
def LocationsReadable (frames : List Text) (locations : List (Option Text)) : Prop :=
  ∀ (i : ℕ) (frame : Text), frames[i]? = some frame → isAppFrame settings frame = true →
    Readable (locations[i]?).join

theorem head?_eq_getElem {α : Type} (l : List α) : l.head? = l[0]? := by cases l <;> rfl

theorem tail_getElem {α : Type} (l : List α) (i : ℕ) : l.tail[i]? = l[i + 1]? := by
  cases l <;> simp

theorem isSome_normaliseFrameLocations (frames : List Text) (locations : List (Option Text)) :
    (normaliseFrameLocations settings frames locations).isSome = true ↔
      LocationsReadable settings frames locations := by
  induction frames generalizing locations with
  | nil => simp [normaliseFrameLocations, LocationsReadable]
  | cons frame frames ih =>
    have hsplit : LocationsReadable settings (frame :: frames) locations ↔
        (isAppFrame settings frame = true → Readable (locations.head?).join) ∧
          LocationsReadable settings frames locations.tail := by
      constructor
      · intro h
        refine ⟨fun happ => head?_eq_getElem locations ▸ h 0 frame rfl happ, fun i f hf happ => ?_⟩
        rw [tail_getElem]
        exact h (i + 1) f hf happ
      · rintro ⟨hhead, htail⟩ i f hf happ
        cases i with
        | zero =>
          obtain rfl : frame = f := by simpa using hf
          rw [← head?_eq_getElem]
          exact hhead happ
        | succ i =>
          rw [← tail_getElem]
          exact htail i f hf happ
    rw [hsplit, ← ih, normaliseFrameLocations]
    cases happ : isAppFrame settings frame with
    | false => simp
    | true =>
      cases hlocate : splitLocation locations.head?.join <;>
        cases hrest : normaliseFrameLocations settings frames locations.tail <;>
          simp [locateFrame, Readable, hlocate]

theorem inStep_of_some {frames : List Text} {locations : List (Option Text)}
    {located : List LocatedFrame}
    (h : normaliseFrameLocations settings frames locations = some located) :
    located.map (·.target) = normaliseFrames settings frames ∧
      ∀ place ∈ located, ∃ i : ℕ, frames[i]? = some place.target ∧
        splitLocation (locations[i]?).join = some (place.file, place.line) := by
  induction frames generalizing locations located with
  | nil =>
    obtain rfl : [] = located := by simpa [normaliseFrameLocations] using h
    exact ⟨rfl, fun place hplace => nomatch hplace⟩
  | cons frame frames ih =>
    rw [normaliseFrameLocations] at h
    cases happ : isAppFrame settings frame with
    | false =>
      rw [happ, if_neg Bool.false_ne_true] at h
      obtain ⟨htargets, hplaces⟩ := ih h
      refine ⟨?_, fun place hplace => ?_⟩
      · rw [htargets, normaliseFrames, normaliseFrames, List.filter_cons, happ]
        rfl
      obtain ⟨i, htarget, hlocation⟩ := hplaces place hplace
      exact ⟨i + 1, htarget, tail_getElem locations i ▸ hlocation⟩
    | true =>
      rw [happ, if_pos rfl] at h
      obtain ⟨here, hhere, h⟩ := Option.bind_eq_some_iff.1 h
      obtain ⟨others, hothers, h⟩ := Option.bind_eq_some_iff.1 h
      obtain rfl := Option.some.inj h
      obtain ⟨⟨file, line⟩, hfile, rfl⟩ := Option.map_eq_some_iff.1 hhere
      obtain ⟨htargets, hplaces⟩ := ih hothers
      refine ⟨?_, fun place hplace => ?_⟩
      · rw [List.map_cons, htargets, normaliseFrames, normaliseFrames, List.filter_cons, happ]
        rfl
      rcases List.mem_cons.1 hplace with rfl | hplace
      · exact ⟨0, rfl, head?_eq_getElem locations ▸ hfile⟩
      · obtain ⟨i, htarget, hlocation⟩ := hplaces place hplace
        exact ⟨i + 1, htarget, tail_getElem locations i ▸ hlocation⟩

/-- **Frames and locations are in step** unless the location of a frame that is kept ends in digits
that `int` does not read. -/
theorem inStep_iff (frames : List Text) (locations : List (Option Text)) :
    InStep settings frames locations ↔
      LocationsReadable settings frames locations := by
  rw [← isSome_normaliseFrameLocations]
  constructor
  · rintro ⟨located, hlocated, -⟩
    rw [hlocated]
    rfl
  · intro h
    obtain ⟨located, hlocated⟩ := Option.isSome_iff_exists.1 h
    exact ⟨located, hlocated, inStep_of_some settings hlocated⟩

/-- **What a location ends in, where it is not read**: digits, not all of them decimals, or too
many. -/
theorem readable_iff (location : Option Text) :
    Readable location ↔ ¬(':' ∈ strip (location.getD []) ∧
      allDigits (afterLast ':' (strip (location.getD []))) = true ∧
        ¬((afterLast ':' (strip (location.getD []))).all isDigit = true ∧
          (afterLast ':' (strip (location.getD []))).length ≤ maxIntDigits)) := by
  rw [Readable, splitLocation]
  generalize strip (location.getD []) = value
  split
  · next hblank =>
    refine iff_of_true rfl ?_
    rintro ⟨hcolon, -⟩
    rw [hblank] at hcolon
    cases hcolon
  split
  · next hdigits =>
    split
    · next hread => exact iff_of_true rfl fun h => h.2.2 hread
    · next hread => exact iff_of_false Bool.false_ne_true fun h => h ⟨hdigits.1, hdigits.2, hread⟩
  · next hplain => exact iff_of_true rfl fun h => hplain ⟨h.1, h.2.1⟩

end

/-! ## The laws -/

section

variable {digest : Text → Text} (settings : FingerprintSettings) (alnum : Char → Bool)
  (classes : ClassSettings) (typeId service : Option Text)

/-- **A fingerprint is that of the failure site**: changes that leave the site alone leave it alone,
and one fingerprint is of one class, one code and one list of frames; the located frames are in step
with the frames where every location is read (`readable_iff`). -/
theorem fingerprint_laws (hdigest : Function.Injective digest) :
    (∀ message lines lines', Relation.EqvGen (Edit settings) lines lines' →
      fingerprintOf digest settings alnum classes message typeId service (some (textOf lines)) =
        fingerprintOf digest settings alnum classes message typeId service
          (some (textOf lines'))) ∧
    (∀ message message' stacktrace stacktrace', IsClean (rootClass alnum stacktrace) →
      IsClean (rootClass alnum stacktrace') →
      fingerprintOf digest settings alnum classes message typeId service stacktrace =
        fingerprintOf digest settings alnum classes message' typeId service stacktrace' →
      rootClass alnum stacktrace = rootClass alnum stacktrace' ∧
        codeOf alnum classes message stacktrace = codeOf alnum classes message' stacktrace' ∧
        countedFrames settings alnum stacktrace = countedFrames settings alnum stacktrace') ∧
    ∀ frames locations, InStep settings frames locations ↔
      LocationsReadable settings frames locations :=
  ⟨fun message _ _ h => fingerprint_edits alnum settings digest classes message typeId service h,
    fun _ _ _ _ hclass hclass' h =>
      site_of_fingerprint settings alnum classes hdigest hclass hclass' h,
    inStep_iff settings⟩

end

/-- The laws with the settings that are built in, and the key itself for a digest. -/
theorem fingerprint_laws_plain :
    (∀ message lines lines', Relation.EqvGen (Edit {}) lines lines' →
      fingerprintOf id {} (fun _ => false) { lookupClass := fun _ => none } message none none
          (some (textOf lines)) =
        fingerprintOf id {} (fun _ => false) { lookupClass := fun _ => none } message none none
          (some (textOf lines'))) ∧
    (∀ message message' stacktrace stacktrace', IsClean (rootClass (fun _ => false) stacktrace) →
      IsClean (rootClass (fun _ => false) stacktrace') →
      fingerprintOf id {} (fun _ => false) { lookupClass := fun _ => none } message none none
          stacktrace =
        fingerprintOf id {} (fun _ => false) { lookupClass := fun _ => none } message' none none
          stacktrace' →
      rootClass (fun _ => false) stacktrace = rootClass (fun _ => false) stacktrace' ∧
        codeOf (fun _ => false) { lookupClass := fun _ => none } message stacktrace =
          codeOf (fun _ => false) { lookupClass := fun _ => none } message' stacktrace' ∧
        countedFrames {} (fun _ => false) stacktrace =
          countedFrames {} (fun _ => false) stacktrace') ∧
    ∀ frames locations, InStep {} frames locations ↔ LocationsReadable {} frames locations :=
  fingerprint_laws {} (fun _ => false) { lookupClass := fun _ => none } none none
    Function.injective_id

/-- A raised two is a digit to `isdigit` and none to `int`. -/
theorem raised_digit_raises :
    ¬InStep {} ["com.uidai.Bio.check".toList] [some "Bio.java:²".toList] := by
  rintro ⟨located, h, -⟩
  have hraises : normaliseFrameLocations {} ["com.uidai.Bio.check".toList]
      [some "Bio.java:²".toList] = none := by decide
  rw [hraises] at h
  cases h

end ResidentCrm.Dlt.Stacktrace
