import ResidentCrm.Lib.JsonDict
import ResidentCrm.Lib.Machine

/-!
# Learned rules, from proposal to prompt

`queue_learning_rule` of `core/agent_orchestrator.py`, `validate_learning_rule` of
`utils/runbook_validator.py` and `tools/promote_rules.py`. Agents append rules to the queue while an
operator goes through it, and a promotion rewrites the queue without the lines it promoted; a line
goes only where one that reads the same was promoted (`rules_kept`), and what reaches a prompt was
proposed word for word and vetted twice (`promoted_vetted`).

A step is what one holder of the queue's lock does, or one answer of the operator. The queue is its
lines, without the line feeds that end them; `isWord` says which characters a word is made of.
-/

namespace ResidentCrm.Rules

/-! ## The checks of a rule -/

/-- A pattern of single characters, at the beginning of a text. -/
def fits : List (Char → Bool) → Text → Bool
  | [], _ => true
  | p :: ps, c :: s => p c && fits ps s
  | _ :: _, [] => false

/-- `re.search` of such a pattern. -/
def found (pattern : List (Char → Bool)) (s : Text) : Bool := s.tails.any (fits pattern)

/-- The search between two `\b`, after a character that is of a word or not. -/
def foundWord (isWord : Char → Bool) (pattern : List (Char → Bool)) : Bool → Text → Bool
  | _, [] => false
  | inWord, c :: s =>
    (!inWord && fits pattern (c :: s) && !((c :: s).drop pattern.length).head?.any isWord) ||
      foundWord isWord pattern (isWord c) s

def isHex (c : Char) : Bool := c.isDigit || ('a' ≤ c && c ≤ 'f') || ('A' ≤ c && c ≤ 'F')

def digits (n : ℕ) : List (Char → Bool) := List.replicate n Text.isDigit

def hexDigits (n : ℕ) : List (Char → Bool) := List.replicate n isHex

def mark (c : Char) : List (Char → Bool) := [fun d => d = c]

/-- `UUID_REGEX`. -/
def uuid : List (Char → Bool) :=
  hexDigits 8 ++ mark '-' ++ hexDigits 4 ++ mark '-' ++ hexDigits 4 ++ mark '-' ++ hexDigits 4 ++
    mark '-' ++ hexDigits 12

/-- `DATE_REGEX`, between its boundaries. -/
def date : List (Char → Bool) := digits 4 ++ mark '-' ++ digits 2 ++ mark '-' ++ digits 2

/-- `ISO_TIMESTAMP_REGEX`, without what may follow. -/
def timestamp : List (Char → Bool) :=
  date ++ [fun c => c = 'T' || Text.isSpace c] ++ digits 2 ++ mark ':' ++ digits 2 ++ mark ':' ++
    digits 2

/-- `LONG_DIGIT_RUN_REGEX`. -/
def longDigitRun : List (Char → Bool) := digits 10

def maxRuleLength : ℕ := 500

/-- `INJECTION_MARKERS`. -/
def injectionMarkers : List Text :=
  ["ignore previous", "ignore all previous", "disregard previous", "disregard all",
    "ignore the above", "system:", "assistant:", "</system", "<|im_start|", "<|im_end|",
    "new instructions", "override the", "you are now", "forget everything"].map String.toList

/-- `validate_generic_text`. -/
def validateGenericText (isWord : Char → Bool) (text : Text) (sourceValues : List Text) :
    List Text :=
  (if found uuid text then ["Contains a UUID.".toList] else []) ++
  (if found timestamp text || foundWord isWord date false text then
    ["Contains a timestamp or date literal.".toList] else []) ++
  (if found longDigitRun text then
    ["Contains a digit run of 10 or more (e.g. SRN, EID).".toList] else []) ++
  (sourceValues.filter fun value => 3 < value.length && Text.has value text).map
    ("Contains source value: ".toList ++ ·)

/-- `validate_learning_rule` -/
def validateLearningRule (isWord : Char → Bool) (ruleText : Text) : List Text :=
  let text := Text.strip ruleText
  if text = [] then ["Rule is empty.".toList]
  else
    (if maxRuleLength < text.length then
      ["Rule is ".toList ++ Text.ofNat text.length ++ " characters; the limit is ".toList ++
        Text.ofNat maxRuleLength ++ ['.']] else []) ++
    ((injectionMarkers.filter fun marker => Text.has marker (Text.lower text)).map fun marker =>
      "Contains instruction-shaped text: '".toList ++ marker ++ ['\'']) ++
    (if Text.has "```".toList text then ["Contains a fenced code block.".toList] else []) ++
    validateGenericText isWord text []

/-! ## A proposal -/

inductive Scope where
  | service
  | generic
deriving DecidableEq

/-- `RULE_SCOPE_SERVICE` and `RULE_SCOPE_GENERIC`. -/
def Scope.name : Scope → Text
  | .service => "service".toList
  | .generic => "generic".toList

/-- What a rule is queued with. -/
structure Entry where
  eventId : Text
  timestamp : Text
  rule : Text
  reasoning : Text
  investigation : Text
  service : Text
  pack : Text
  scope : Scope

def Entry.items (entry : Entry) : List (Text × Scalar) :=
  [("eventId".toList, .string entry.eventId), ("timestamp".toList, .string entry.timestamp),
    ("proposed_rule".toList, .string entry.rule),
    ("reviewer_reasoning".toList, .string entry.reasoning),
    ("investigator_original_output".toList, .string entry.investigation),
    ("service".toList, .string entry.service), ("service_pack".toList, .string entry.pack),
    ("scope".toList, .string entry.scope.name)]

/-- `json.dumps(entry)` -/
def Entry.line (entry : Entry) : Text := Style.ascii.dict entry.items

/-! ## A promotion -/

/-- The files that learned rules are kept in. -/
inductive Target where
  | generic
  | pack (name : Text)
deriving DecidableEq

/-- `PRE_REGISTRY_PACK`. -/
def preRegistryPack : Text := "enu-biometric".toList

/-- `target_pack_for` -/
def targetPackFor (packs : List Text) (entry : Json) : Text :=
  match (entry.item "service_pack".toList).string with
  | some pack => if pack ∈ packs then pack else preRegistryPack
  | none => preRegistryPack

/-- `scope_of` -/
def scopeOf (entry : Json) : Scope :=
  if (entry.item "scope".toList).isText Scope.generic.name then .generic else .service

/-- `target_file_for` -/
def targetFileFor (packs : List Text) (entry : Json) : Scope → Target
  | .generic => .generic
  | .service => .pack (targetPackFor packs entry)

def addition (rule : Text) : Text := "\n- CRITICAL RULE: ".toList ++ rule ++ ['\n']

/-- The entry of a line and its rule; `none` where reading it raises. -/
def readRule (line : Text) : Option (Json × Text) :=
  match loads (Text.strip line) with
  | some (.object items) =>
    let entry := Json.object items
    let proposed := entry.item "proposed_rule".toList
    if proposed.isFalsy then some (entry, []) else proposed.string.map fun rule => (entry, rule)
  | _ => none

def Scope.other : Scope → Scope
  | .service => .generic
  | .generic => .service

/-- What the operator types settles the scope of a promotion, or that there is none. -/
def settle : Scope → List Text → Option Scope
  | _, [] => none
  | scope, choice :: typed =>
    let choice := Text.strip choice
    if choice = scope.other.name then settle scope.other typed
    else if choice = "promote".toList then some scope
    else none

/-- What is promoted of a line, and where to. -/
def promotes (packs : List Text) (isWord : Char → Bool) (line : Text) (typed : List Text) :
    Option (Target × Text) :=
  match readRule line with
  | some (entry, rule) =>
    if validateLearningRule isWord rule = [] then
      (settle (scopeOf entry) typed).map fun scope => (targetFileFor packs entry scope, rule)
    else none
  | none => none

/-! ## The queue and the files -/

/-- A promotion under way: the lines it has not come to, and `promoted_raw_lines`. -/
structure Session where
  lines : List Text
  promoted : List Text

/-- A promoted rule: the line it was queued in, and the file it was appended to. -/
structure Promotion where
  line : Text
  target : Target
  rule : Text

/-- The queue's lines, the files of learned rules and the promotion under way. `first` and `base` are
what the queue and the files were to begin with, `queued` every line that has been in the queue, and
`promotions` what has been promoted, each in its order. -/
structure Store where
  pending : List Text
  files : Target → Text
  session : Option Session
  first : List Text
  base : Target → Text
  queued : List Text
  promotions : List Promotion

inductive Action where
  /-- An agent proposes a rule. -/
  | queue (entry : Entry)
  /-- A promotion begins, the working tree being clean or not. -/
  | begin (clean : Bool)
  /-- The operator answers on the next line, and the file can be written or not. -/
  | answer (typed : List Text) (writes : Bool)
  /-- The queue is rewritten. -/
  | finish
  /-- The promotion is interrupted, or its process dies. -/
  | abort
  /-- Its process dies while it rewrites the queue, with so many lines written. -/
  | tear (written : ℕ)

section

variable (packs : List Text) (isWord : Char → Bool)

/-- The lines that a promotion leaves in the queue. -/
def remaining (pending promoted : List Text) : List Text :=
  pending.filter fun line => Text.strip line ∉ promoted

def Store.promote (s : Store) (line : Text) (target : Target) (rule : Text) : Store :=
  { s with
    files := Function.update s.files target (s.files target ++ addition rule)
    promotions := s.promotions ++ [⟨line, target, rule⟩] }

def step (s : Store) : Action → Option Store
  | .queue entry =>
    if validateLearningRule isWord entry.rule = [] then
      some { s with pending := s.pending ++ [entry.line], queued := s.queued ++ [entry.line] }
    else some s
  | .begin clean =>
    match s.session with
    | none =>
      if clean && !s.pending.isEmpty then some { s with session := some ⟨s.pending, []⟩ }
      else some s
    | some _ => none
  | .answer typed writes =>
    match s.session with
    | some ⟨line :: lines, promoted⟩ =>
      match promotes packs isWord line typed with
      | some (target, rule) =>
        if writes then
          some { s.promote line target rule with
            session := some ⟨lines, Text.strip line :: promoted⟩ }
        else some { s with session := some ⟨lines, promoted⟩ }
      | none => some { s with session := some ⟨lines, promoted⟩ }
    | _ => none
  | .finish =>
    match s.session with
    | some ⟨[], promoted⟩ =>
      some { s with pending := remaining s.pending promoted, session := none }
    | _ => none
  | .abort => if s.session.isSome then some { s with session := none } else none
  | .tear written =>
    match s.session with
    | some ⟨[], promoted⟩ =>
      some { s with pending := (remaining s.pending promoted).take written, session := none }
    | _ => none

def AtStart (s : Store) : Prop :=
  s.session = none ∧ s.queued = s.pending ∧ s.first = s.pending ∧ s.files = s.base ∧
    s.promotions = []

def promotion : Machine Store Action where
  start := AtStart
  step := step packs isWord

/-- No promotion dies while it rewrites the queue. -/
def Whole (_ : Store) (a : Action) : Prop := ∀ written, a ≠ .tear written

end

/-! ## What every step keeps -/

variable {packs : List Text} {isWord : Char → Bool} {s t : Store}

/-- Some line that reads the same has been promoted. -/
def Store.Promoted (s : Store) (key : Text) : Prop := ∃ p ∈ s.promotions, Text.strip p.line = key

/-- A line is one that the queue began with, or holds an entry that was vetted. -/
def Origin (isWord : Char → Bool) (first : List Text) (line : Text) : Prop :=
  line ∈ first ∨ ∃ entry : Entry, line = entry.line ∧ validateLearningRule isWord entry.rule = []

/-- What is promoted is the rule of a queued line, vetted, in one of the two files it may go to. -/
structure Vetted (packs : List Text) (isWord : Char → Bool) (queued : List Text) (p : Promotion) :
    Prop where
  queued : p.line ∈ queued
  valid : validateLearningRule isWord p.rule = []
  reads : ∃ entry, readRule p.line = some (entry, p.rule) ∧
    ∃ scope, p.target = targetFileFor packs entry scope

/-- The file is what it was, with what was promoted to it after it. -/
def Appended (base : Target → Text) (promotions : List Promotion) (files : Target → Text) : Prop :=
  ∀ target, files target = base target ++
    (promotions.filter fun p => p.target = target).flatMap fun p => addition p.rule

structure Inv (packs : List Text) (isWord : Char → Bool) (s : Store) : Prop where
  pending : ∀ line ∈ s.pending, line ∈ s.queued
  origin : ∀ line ∈ s.queued, Origin isWord s.first line
  session : ∀ session, s.session = some session →
    (∀ line ∈ session.lines, line ∈ s.queued) ∧ ∀ key ∈ session.promoted, s.Promoted key
  vetted : ∀ p ∈ s.promotions, Vetted packs isWord s.queued p
  files : Appended s.base s.promotions s.files

theorem promotes_eq_some {line : Text} {typed : List Text} {target : Target} {rule : Text}
    (h : promotes packs isWord line typed = some (target, rule)) :
    validateLearningRule isWord rule = [] ∧ ∃ entry, readRule line = some (entry, rule) ∧
      ∃ scope, target = targetFileFor packs entry scope := by
  unfold promotes at h
  split at h
  · next entry rule' hread =>
    split at h
    · next hvalid =>
      obtain ⟨scope, -, heq⟩ := Option.map_eq_some_iff.1 h
      obtain ⟨rfl, rfl⟩ := Prod.mk.inj heq
      exact ⟨hvalid, entry, hread, scope, rfl⟩
    · cases h
  · cases h

theorem Vetted.mono {queued queued' : List Text} (hq : ∀ line ∈ queued, line ∈ queued')
    {p : Promotion} (h : Vetted packs isWord queued p) : Vetted packs isWord queued' p :=
  ⟨hq _ h.queued, h.valid, h.reads⟩

theorem Appended.promote (h : Appended s.base s.promotions s.files) (line : Text) (target : Target)
    (rule : Text) : Appended s.base (s.promote line target rule).promotions
      (s.promote line target rule).files := by
  intro target'
  simp only [Store.promote, List.filter_append, List.flatMap_append]
  by_cases htarget : target' = target
  · subst htarget
    rw [Function.update_self, h target']
    simp
  · rw [Function.update_of_ne htarget, h target']
    simp [Ne.symm htarget]

theorem AtStart.inv (h : AtStart s) : Inv packs isWord s := by
  obtain ⟨hsession, hqueued, hfirst, hfiles, hpromotions⟩ := h
  refine ⟨fun line hline => hqueued ▸ hline, fun line hline => .inl ?_, fun session hs => ?_,
    fun p hp => ?_, fun target => ?_⟩
  · rw [hfirst, ← hqueued]
    exact hline
  · rw [hsession] at hs
    cases hs
  · rw [hpromotions] at hp
    cases hp
  · rw [hfiles, hpromotions]
    exact (List.append_nil _).symm

/-- The queue loses lines and the promotion ends. -/
theorem Inv.ends (h : Inv packs isWord s) {pending : List Text}
    (hpending : ∀ line ∈ pending, line ∈ s.pending) :
    Inv packs isWord { s with pending := pending, session := none } :=
  ⟨fun line hline => h.pending line (hpending line hline), h.origin,
    fun _ hs => absurd hs.symm (Option.some_ne_none _), h.vetted, h.files⟩

theorem Inv.step (h : Inv packs isWord s) {a : Action} (hstep : step packs isWord s a = some t) :
    Inv packs isWord t := by
  cases a with
  | queue entry =>
    simp only [Rules.step] at hstep
    split at hstep
    · next hvalid =>
      cases hstep
      have hmono : ∀ line ∈ s.queued, line ∈ s.queued ++ [entry.line] :=
        fun line hline => List.mem_append_left _ hline
      refine ⟨fun line hline => ?_, fun line hline => ?_, fun session hs => ?_, fun p hp =>
        (h.vetted p hp).mono hmono, h.files⟩
      · exact (List.mem_append.1 hline).elim (fun hl => hmono line (h.pending line hl))
          (List.mem_append_right _)
      · rcases List.mem_append.1 hline with hl | hl
        · exact h.origin line hl
        · exact .inr ⟨entry, List.mem_singleton.1 hl, hvalid⟩
      · obtain ⟨hlines, hpromoted⟩ := h.session session hs
        exact ⟨fun line hline => hmono line (hlines line hline), hpromoted⟩
    · cases hstep
      exact h
  | begin clean =>
    simp only [Rules.step] at hstep
    split at hstep
    · split at hstep
      · cases hstep
        refine ⟨h.pending, h.origin, fun session hs => ?_, h.vetted, h.files⟩
        cases hs
        exact ⟨h.pending, fun key hkey => by cases hkey⟩
      · cases hstep
        exact h
    · cases hstep
  | answer typed writes =>
    simp only [Rules.step] at hstep
    split at hstep
    · next line lines promoted hsession =>
      obtain ⟨hlines, hpromoted⟩ := h.session _ hsession
      have hrest : ∀ l ∈ lines, l ∈ s.queued := fun l hl => hlines l (List.mem_cons_of_mem _ hl)
      split at hstep
      · next target rule hpromotes =>
        split at hstep
        · cases hstep
          obtain ⟨hvalid, hreads⟩ := promotes_eq_some hpromotes
          refine ⟨h.pending, h.origin, fun session hs => ?_, fun p hp => ?_,
            h.files.promote line target rule⟩
          · cases hs
            refine ⟨hrest, fun key hkey => ?_⟩
            rcases List.mem_cons.1 hkey with rfl | hkey
            · exact ⟨_, List.mem_append_right _ List.mem_cons_self, rfl⟩
            · obtain ⟨p, hp, heq⟩ := hpromoted key hkey
              exact ⟨p, List.mem_append_left _ hp, heq⟩
          · rcases List.mem_append.1 hp with hp | hp
            · exact h.vetted p hp
            · rw [List.mem_singleton.1 hp]
              exact ⟨hlines line List.mem_cons_self, hvalid, hreads⟩
        · cases hstep
          exact ⟨h.pending, h.origin, fun session hs => by cases hs; exact ⟨hrest, hpromoted⟩,
            h.vetted, h.files⟩
      · cases hstep
        exact ⟨h.pending, h.origin, fun session hs => by cases hs; exact ⟨hrest, hpromoted⟩,
          h.vetted, h.files⟩
    · cases hstep
  | finish =>
    simp only [Rules.step] at hstep
    split at hstep
    · cases hstep
      exact h.ends fun line hline => List.mem_of_mem_filter hline
    · cases hstep
  | abort =>
    simp only [Rules.step] at hstep
    split at hstep
    · cases hstep
      exact h.ends fun _ hline => hline
    · cases hstep
  | tear written =>
    simp only [Rules.step] at hstep
    split at hstep
    · cases hstep
      exact h.ends fun line hline => List.mem_of_mem_filter (List.mem_of_mem_take hline)
    · cases hstep

theorem reachable_inv {C : Store → Action → Prop} (hs : (promotion packs isWord).Reach C s) :
    Inv packs isWord s :=
  hs.invariant (fun _ => AtStart.inv) fun _ _ _ h _ hstep => h.step hstep

/-! ## A promotion with an agent beside it -/

def proposal (rule : String) : Entry where
  eventId := "e".toList
  timestamp := "t".toList
  rule := rule.toList
  reasoning := "r".toList
  investigation := "i".toList
  service := "upi".toList
  pack := "upi".toList
  scope := .service

def atRest : Store := ⟨[], fun _ => [], none, [], fun _ => [], [], []⟩

/-- Two rules are queued and a third during the promotion of the first. -/
def besidePromotion : List Action :=
  [.queue (proposal "Check the stage."), .queue (proposal "Cite the log."), .begin true,
    .answer ["generic".toList, "promote".toList] true, .queue (proposal "Read the trace."),
    .answer ["no".toList] true, .finish]

theorem exists_besidePromotion : ∃ s,
    (promotion ["upi".toList] fun c => c.isAlphanum).Reach Whole s ∧
      (proposal "Cite the log.").line ∈ s.queued ∧
      s.promotions.map Promotion.line = [(proposal "Check the stage.").line] := by
  obtain ⟨s, hs, hp⟩ := (promotion ["upi".toList] fun c => c.isAlphanum).exists_reach_runWhere
    (C := Whole) (c := fun _ a => match a with | .tear _ => false | _ => true)
    (fun s a h written heq => by subst heq; cases h) (s := atRest) ⟨rfl, rfl, rfl, rfl, rfl⟩
    besidePromotion
    (fun s => (proposal "Cite the log.").line ∈ s.queued ∧
      s.promotions.map Promotion.line = [(proposal "Check the stage.").line]) (by decide +kernel)
  exact ⟨s, hs, of_decide_eq_true hp⟩

theorem rest_ends (items : List (Text × Scalar)) : ∃ l, Style.ascii.rest items = l ++ ['}'] := by
  induction items with
  | nil => exact ⟨[], rfl⟩
  | cons item items ih =>
    obtain ⟨l, hl⟩ := ih
    refine ⟨',' :: (Style.ascii.space ++ Style.ascii.item item ++ l), ?_⟩
    rw [Style.rest, hl]
    simp

/-- A line has no white space around it. -/
theorem strip_line (entry : Entry) : Text.strip entry.line = entry.line := by
  obtain ⟨l, hl⟩ := rest_ends (entry.items.tail)
  obtain ⟨front, hfront⟩ : ∃ front, entry.line = front ++ ['}'] :=
    ⟨'{' :: (Style.ascii.item ("eventId".toList, .string entry.eventId) ++ l), by
      rw [Entry.line, Entry.items, Style.dict, List.cons_append, List.append_assoc, ← hl]
      rfl⟩
  apply Text.strip_of_ends
  · intro c hc
    obtain rfl : '{' = c := Option.some.inj hc
    decide
  · rw [hfront, Text.rstrip_append (by decide)]
    rfl

/-! ## What no promotion loses -/

/-- The lines that read so. -/
def reading (key : Text) (lines : List Text) : List Text :=
  lines.filter fun line => Text.strip line = key

/-- The queue is what was queued, in its order, and all of it that reads as nothing promoted does. -/
structure Kept (s : Store) : Prop where
  sublist : s.pending.Sublist s.queued
  all : ∀ key, ¬ s.Promoted key → reading key s.pending = reading key s.queued

theorem Kept.step (h : Kept s) (hinv : Inv packs isWord s) {a : Action} (hwhole : Whole s a)
    (hstep : step packs isWord s a = some t) : Kept t := by
  cases a with
  | queue entry =>
    simp only [Rules.step] at hstep
    split at hstep
    · cases hstep
      refine ⟨h.sublist.append_right _, fun key hkey => ?_⟩
      rw [reading, reading, List.filter_append, List.filter_append]
      exact congrArg (· ++ _) (h.all key hkey)
    · cases hstep
      exact h
  | begin clean =>
    simp only [Rules.step] at hstep
    split at hstep
    · split at hstep <;> cases hstep <;> exact ⟨h.sublist, h.all⟩
    · cases hstep
  | answer typed writes =>
    simp only [Rules.step] at hstep
    split at hstep
    · split at hstep
      · split at hstep
        · cases hstep
          refine ⟨h.sublist, fun key hkey => h.all key ?_⟩
          rintro ⟨p, hp, heq⟩
          exact hkey ⟨p, List.mem_append_left _ hp, heq⟩
        · cases hstep
          exact ⟨h.sublist, h.all⟩
      · cases hstep
        exact ⟨h.sublist, h.all⟩
    · cases hstep
  | finish =>
    simp only [Rules.step] at hstep
    split at hstep
    · next promoted hsession =>
      cases hstep
      refine ⟨List.filter_sublist.trans h.sublist, fun key hkey => ?_⟩
      -- what is taken out reads as something promoted
      rw [← h.all key hkey, reading, reading, remaining, List.filter_filter]
      apply List.filter_congr
      intro line _
      have hnot : Text.strip line = key → Text.strip line ∉ promoted := by
        rintro rfl hmem
        exact hkey ((hinv.session _ hsession).2 _ hmem)
      by_cases hline : Text.strip line = key
      · simp [hline, hline ▸ hnot hline]
      · simp [hline]
    · cases hstep
  | abort =>
    simp only [Rules.step] at hstep
    split at hstep
    · cases hstep
      exact ⟨h.sublist, h.all⟩
    · cases hstep
  | tear written => exact absurd rfl (hwhole written)

/-- **No rule is lost.** Whatever agents queue while promotions go on, are interrupted or fail, the
queue holds what was queued in its order, and every line of it but those that read as one that was
promoted. -/
theorem rules_kept (hs : (promotion packs isWord).Reach Whole s) :
    s.pending.Sublist s.queued ∧
      ∀ line ∈ s.queued, (∀ p ∈ s.promotions, Text.strip p.line ≠ Text.strip line) →
        reading (Text.strip line) s.pending = reading (Text.strip line) s.queued ∧
          line ∈ s.pending := by
  have hkept : Inv packs isWord s ∧ Kept s := by
    apply hs.invariant (I := fun s => Inv packs isWord s ∧ Kept s)
    · intro s h
      exact ⟨h.inv, by rw [h.2.1], fun key _ => by rw [h.2.1]⟩
    · intro s a t ⟨hinv, hkept⟩ hwhole hstep
      exact ⟨hinv.step hstep, hkept.step hinv hwhole hstep⟩
  refine ⟨hkept.2.sublist, fun line hline hnone => ?_⟩
  have hnot : ¬ s.Promoted (Text.strip line) := fun ⟨p, hp, heq⟩ => hnone p hp heq
  have hreading := hkept.2.all _ hnot
  refine ⟨hreading, ?_⟩
  have hmem : line ∈ reading (Text.strip line) s.queued := by simp [reading, hline]
  rw [← hreading] at hmem
  exact List.mem_of_mem_filter hmem

theorem besidePromotion_kept : ∃ s,
    (promotion ["upi".toList] fun c => c.isAlphanum).Reach Whole s ∧
      s.pending.Sublist s.queued ∧ s.promotions ≠ [] ∧
      (proposal "Cite the log.").line ∈ s.pending := by
  obtain ⟨s, hs, hline, hpromotions⟩ := exists_besidePromotion
  obtain ⟨hsublist, hkept⟩ := rules_kept hs
  refine ⟨s, hs, hsublist, ?_, (hkept _ hline fun p hp => ?_).2⟩
  · intro hnil
    simp [hnil] at hpromotions
  · have hp : p.line ∈ s.promotions.map Promotion.line := List.mem_map_of_mem hp
    rw [hpromotions, List.mem_singleton] at hp
    rw [hp, strip_line, strip_line]
    decide

/-! ## What reaches a prompt -/

theorem loads_line (entry : Entry) :
    loads entry.line = some (.object (Style.fields entry.items)) := by
  apply Style.ascii.loads_dict
  · intro item hitem
    obtain ⟨t, ht⟩ : ∃ t, item.2 = .string t := by
      simp only [Entry.items, List.mem_cons, List.not_mem_nil, or_false] at hitem
      rcases hitem with rfl | rfl | rfl | rfl | rfl | rfl | rfl | rfl <;> exact ⟨_, rfl⟩
    rw [ht]
    trivial
  · show (["eventId", "timestamp", "proposed_rule", "reviewer_reasoning",
      "investigator_original_output", "service", "service_pack", "scope"].map String.toList).Nodup
    decide

theorem ne_nil_of_valid {rule : Text} (h : validateLearningRule isWord rule = []) : rule ≠ [] := by
  rintro rfl
  cases h

/-- The line of an entry that was vetted reads as it. -/
theorem readRule_line {entry : Entry} (hvalid : validateLearningRule isWord entry.rule = []) :
    readRule entry.line = some (.object (Style.fields entry.items), entry.rule) := by
  have hproposed : (Json.object (Style.fields entry.items)).item "proposed_rule".toList =
      .scalar (.string entry.rule) := rfl
  have hfalsy : (Json.scalar (.string entry.rule)).isFalsy = false := by
    rw [Json.isFalsy]
    exact Bool.eq_false_of_not_eq_true fun hempty =>
      ne_nil_of_valid hvalid (List.isEmpty_iff.1 hempty)
  rw [readRule, strip_line, loads_line]
  simp only [hproposed, hfalsy]
  rfl

theorem targetPackFor_line (entry : Entry) :
    targetPackFor packs (.object (Style.fields entry.items)) =
      if entry.pack ∈ packs then entry.pack else preRegistryPack := rfl

/-- **What reaches a prompt was vetted.** In every run each promoted rule passes the checks and stood
in the queue; if an agent queued it, it is what the agent proposed word for word, and it went to the
file for every service or to that of the pack it was learned under. The files hold what they held,
and after it the promoted rules in their order. -/
theorem promoted_vetted (hs : (promotion packs isWord).Reachable s) :
    (∀ p ∈ s.promotions, validateLearningRule isWord p.rule = [] ∧ p.line ∈ s.queued ∧
      (p.line ∈ s.first ∨ ∃ entry : Entry, p.line = entry.line ∧ p.rule = entry.rule ∧
        (p.target = .generic ∨
          p.target = .pack (if entry.pack ∈ packs then entry.pack else preRegistryPack)))) ∧
      Appended s.base s.promotions s.files := by
  have hinv : Inv packs isWord s := reachable_inv hs
  refine ⟨fun p hp => ?_, hinv.files⟩
  obtain ⟨hqueued, hvalid, read, hread, scope, htarget⟩ := hinv.vetted p hp
  refine ⟨hvalid, hqueued, (hinv.origin p.line hqueued).imp_right ?_⟩
  rintro ⟨entry, hline, hentry⟩
  rw [hline, readRule_line hentry] at hread
  obtain ⟨rfl, hrule⟩ := Prod.mk.inj (Option.some.inj hread)
  refine ⟨entry, hline, hrule.symm, ?_⟩
  cases scope with
  | generic => exact .inl htarget
  | service =>
    rw [htarget, targetFileFor, targetPackFor_line]
    exact .inr rfl

theorem besidePromotion_vetted : ∃ s,
    (promotion ["upi".toList] fun c => c.isAlphanum).Reachable s ∧ s.promotions ≠ [] ∧
      ∀ p ∈ s.promotions, validateLearningRule (fun c => c.isAlphanum) p.rule = [] ∧
        p.line ∈ s.queued := by
  obtain ⟨s, hs, -, hpromotions⟩ := exists_besidePromotion
  refine ⟨s, hs.reachable, ?_, fun p hp => ?_⟩
  · intro hnil
    simp [hnil] at hpromotions
  · obtain ⟨hvalid, hqueued, -⟩ := (promoted_vetted hs.reachable).1 p hp
    exact ⟨hvalid, hqueued⟩

end ResidentCrm.Rules
