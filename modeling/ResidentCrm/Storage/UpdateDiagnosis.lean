import ResidentCrm.Storage.UpdateJson
import Mathlib.Data.Fintype.Basic

/-!
# What a refused update reports

`S3CasebookStorage.update_json` on a store that honours `If-Match`: the store compares the header
with the ETag of the object, in the form it wants, takes the put where they agree and refuses it
where they do not, and an object's ETag is a function of its content. Besides the calls there are
other writers of the key. A call that raises says why.

A content may come back between two reads, and what a call takes for a store that refused twice is
then two lost races. Where nobody changes the object while a call puts under an ETag that it was
refused under before, no call takes the store for one that does not support conditional writes
(`diagnosis_of_meets`).
-/

namespace ResidentCrm.Storage.Update

universe u v

/-- The form of an ETag a store compares `If-Match` with. -/
inductive Wants where
  | quoted
  | bare
  | either
deriving DecidableEq, Repr

/-- The store takes the form for the ETag. -/
def Takes : Wants → Text → Text → Prop
  | .quoted, form, etag => form = quoted etag
  | .bare, form, etag => form = bare etag
  | .either, form, etag => bare form = bare etag

instance : (wants : Wants) → (form etag : Text) → Decidable (Takes wants form etag)
  | .quoted, form, etag => inferInstanceAs (Decidable (form = quoted etag))
  | .bare, form, etag => inferInstanceAs (Decidable (form = bare etag))
  | .either, form, etag => inferInstanceAs (Decidable (bare form = bare etag))

/-- Why a call raised: `StorageReadError`, what its function or a put raised,
`ConditionalWriteUnsupported`, or the `RuntimeError` that another writer won every round. -/
inductive Raises where
  | read
  | mutate
  | put
  | unsupported
  | lostRaces
deriving DecidableEq, Repr

/-- What the last refusal of an attempt raises. -/
def refusedRaises (attempts n : ℕ) (refused etag : Option Text) : Option Raises :=
  if etag.isSome && etag = refused then some .unsupported
  else if n + 1 < attempts then none
  else some .lostRaces

/-- A call starts, reads, settles the forms of its put, or puts, which may fail; another writer saves
or deletes the object. -/
inductive DiagnosisAct (ι : Type v) (D : Type u) where
  | start (i : ι)
  | read (i : ι) (outcome : Read)
  | forms (i : ι)
  | put (i : ι) (fails : Bool)
  | save (d : D)
  | delete
deriving DecidableEq

structure Contended (ι : Type v) (D : Type u) where
  object : Option D
  styles : ℕ → Option Style
  phase : ι → Phase D
  raises : ι → Option Raises

variable {ι : Type v} {D : Type u}

section

variable (wants : Wants) (etagOf : D → Text)

/-- The store finds the condition of a put met. -/
def Header.Met (object : Option D) : Header → Prop
  | .ifNoneMatch => object = none
  | .ifMatch form => ∃ d ∈ object, Takes wants form (etagOf d)

instance (object : Option D) : (header : Header) → Decidable (header.Met wants etagOf object)
  | .ifNoneMatch => decidable_of_iff _ Option.isNone_iff_eq_none
  | .ifMatch form =>
    decidable_of_iff (object.any fun d => Takes wants form (etagOf d))
      (by simp [Header.Met, Option.any_eq_true])

variable [DecidableEq ι] (calls : ι → Call D) (stamp : D → D) (attempts : ℕ)

/-- A call goes on, or raises. -/
def Contended.goes (s : Contended ι D) (i : ι) (p : Phase D) (r : Option Raises) :
    Contended ι D :=
  { s with phase := Function.update s.phase i p, raises := Function.update s.raises i r }

/-- A call reads, and applies its function to what it read. -/
def Contended.read (s : Contended ι D) (i : ι) (n : ℕ) (refused : Option Text) (outcome : Read) :
    Contended ι D :=
  match loadWithEtag (s.object.map fun d => (d, etagOf d)) outcome with
  | none => s.goes i .raised (some .read)
  | some (current, etag) =>
    match (calls i).apply stamp current with
    | none => s.goes i .raised (some .mutate)
    | some updated => s.goes i (.made n refused etag updated) none

/-- The put is taken. -/
def Contended.taken (s : Contended ι D) (i : ι) (updated : D) (header : Header) : Contended ι D :=
  { s.goes i (.returned updated) none with
    object := some updated
    styles := match header with
      | .ifNoneMatch => s.styles
      | .ifMatch form =>
        Function.update s.styles (calls i).process (latch (s.styles (calls i).process) form) }

/-- A put that does not fail is taken where its condition is met, and refused elsewhere. -/
def Contended.put (s : Contended ι D) (i : ι) (n : ℕ) (refused etag : Option Text) (updated : D)
    (header : Header) (untried : List Header) : Contended ι D :=
  if header.Met wants etagOf s.object then s.taken calls i updated header
  else if untried = [] then
    s.goes i (refusedPhase attempts n refused etag) (refusedRaises attempts n refused etag)
  else s.goes i (.putting n refused etag updated untried) none

def contending : Machine (Contended ι D) (DiagnosisAct ι D) where
  start s := ∀ i, s.phase i = .idle ∧ s.raises i = none
  step s
    | .start i => match s.phase i with
      | .idle => some <|
        if 0 < attempts then s.goes i (.reading 0 none) none
        else s.goes i .raised (some .lostRaces)
      | _ => none
    | .read i outcome => match s.phase i with
      | .reading n refused => some (s.read etagOf calls stamp i n refused outcome)
      | _ => none
    | .forms i => match s.phase i with
      | .made n refused etag updated => some <| s.goes i
        (.putting n refused etag updated (headers (s.styles (calls i).process) etag)) none
      | _ => none
    | .put i fails => match s.phase i with
      | .putting n refused etag updated (header :: untried) => some <|
        if fails then s.goes i .raised (some .put)
        else s.put wants etagOf calls attempts i n refused etag updated header untried
      | _ => none
    | .save d => some { s with object := some d }
    | .delete => some { s with object := none }

/-! ## What is promised, and when -/

/-- A call that raises is not told that the store does not support conditional writes. -/
def Contended.Upheld (s : Contended ι D) : Prop :=
  ∀ i, s.phase i = .raised → ∃ r ∈ s.raises i, r ≠ .unsupported

/-- The ETag of what a call is to put, if it was refused under it in its attempt before. -/
def Phase.again : Phase D → Option Text
  | .made _ refused etag _ => if etag = refused then etag else none
  | .putting _ refused etag _ _ => if etag = refused then etag else none
  | _ => none

/-- The object that a step writes. -/
def Contended.writes (s : Contended ι D) : DiagnosisAct ι D → Option (Option D)
  | .save d => some (some d)
  | .delete => some none
  | .put i false => match s.phase i with
    | .putting _ _ _ updated (header :: _) =>
      if header.Met wants etagOf s.object then some (some updated) else none
    | _ => none
  | _ => none

/-- Nobody gives the object another ETag, or deletes it, while another call puts under an ETag that
it was refused under before. -/
def Unmoved (s : Contended ι D) (a : DiagnosisAct ι D) : Prop :=
  ∀ object ∈ s.writes wants etagOf a, ∀ i, a ≠ .put i false → (s.phase i).again ≠ none →
    object.map etagOf = s.object.map etagOf

instance [Fintype ι] [DecidableEq D] (s : Contended ι D) (a : DiagnosisAct ι D) :
    Decidable (Unmoved wants etagOf s a) :=
  inferInstanceAs (Decidable (∀ _ ∈ _, _))

/-- A process has not settled on a form that the store does not take. -/
def Wants.Suits : Wants → Option Style → Prop
  | .quoted, some .bare => False
  | .bare, some .quoted => False
  | _, _ => True

/-- Every call that raised says why, and no call says `unsupported`; no process has settled on a
form that the store does not take; and what a call puts under an ETag that it was refused under
before is under the object's, in a form that the store takes. -/
structure Contended.Inv (s : Contended ι D) : Prop where
  said : ∀ i, s.phase i = .raised ↔ (s.raises i).isSome
  supported : ∀ i, s.raises i ≠ some .unsupported
  suits : ∀ process, wants.Suits (s.styles process)
  held : ∀ i, ∀ tag ∈ (s.phase i).again, s.object.map etagOf = some tag
  untried : ∀ i n refused etag updated untried,
    s.phase i = .putting n refused etag updated untried → ∀ tag ∈ (s.phase i).again,
      ∃ form, Header.ifMatch form ∈ untried ∧ Takes wants form tag

end

/-! ## The forms of an ETag -/

section

variable {wants : Wants} {resolved : Option Style} {etag form : Text}

theorem head?_bare (etag : Text) : (bare etag).head? ≠ some '"' := by
  intro hhead
  obtain ⟨rest, hrest⟩ := List.rdropWhile_prefix (· = '"') (etag.dropWhile (· = '"'))
  have hdropped : (etag.dropWhile (· = '"')).head? = some '"' := by
    rw [← hrest, List.head?_append]
    exact congrArg (Option.or · rest.head?) hhead
  have hnot := List.head?_dropWhile_not (fun c => decide (c = '"')) etag
  rw [hdropped] at hnot
  simp at hnot

theorem head?_quoted (etag : Text) : (quoted etag).head? = some '"' := by
  unfold quoted
  split
  · assumption
  · rfl

theorem mem_etagForms_of_unsettled (etag : Text) (hbare : resolved ≠ some .bare)
    (hquoted : resolved ≠ some .quoted) :
    quoted etag ∈ etagForms resolved etag ∧ bare etag ∈ etagForms resolved etag := by
  unfold etagForms
  split
  · exact absurd rfl hbare
  · exact absurd rfl hquoted
  · simp only [List.foldl_cons, List.foldl_nil]
    constructor <;> split <;> split <;> simp_all

/-- Whatever a process has settled on that the store takes, it puts in a form that the store
takes. -/
theorem exists_takes (h : wants.Suits resolved) (etag : Text) :
    ∃ form ∈ etagForms resolved etag, Takes wants form etag := by
  by_cases hbare : resolved = some .bare
  · subst hbare
    refine ⟨bare etag, List.mem_singleton_self _, ?_⟩
    cases wants with
    | quoted => exact h.elim
    | bare => exact rfl
    | either => exact bare_bare etag
  by_cases hquoted : resolved = some .quoted
  · subst hquoted
    refine ⟨quoted etag, List.mem_singleton_self _, ?_⟩
    cases wants with
    | quoted => exact rfl
    | bare => exact h.elim
    | either => exact bare_quoted etag
  obtain ⟨hmemQuoted, hmemBare⟩ := mem_etagForms_of_unsettled etag hbare hquoted
  cases wants with
  | quoted => exact ⟨quoted etag, hmemQuoted, rfl⟩
  | bare => exact ⟨bare etag, hmemBare, rfl⟩
  | either => exact ⟨bare etag, hmemBare, bare_bare etag⟩

/-- A process settles on a form that the store took. -/
theorem suits_latch (h : wants.Suits resolved) (htakes : Takes wants form etag) :
    wants.Suits (latch resolved form) := by
  cases resolved with
  | some style => exact h
  | none =>
    rw [latch, Option.none_or]
    cases wants with
    | quoted =>
      obtain rfl : form = quoted etag := htakes
      rw [if_pos (head?_quoted etag)]
      trivial
    | bare =>
      obtain rfl : form = bare etag := htakes
      rw [if_neg (head?_bare etag)]
      trivial
    | either =>
      split
      · trivial
      · trivial

end

/-! ## Steps -/

section

variable [DecidableEq ι] {wants : Wants} {etagOf : D → Text} {calls : ι → Call D} {stamp : D → D}
  {s t : Contended ι D} {i : ι} {p : Phase D} {r : Option Raises} {attempts n : ℕ}
  {refused etag : Option Text} {updated : D} {header : Header} {untried : List Header}
  {outcome : Read} {a : DiagnosisAct ι D}

theorem refusedPhase_raised_iff :
    (refusedPhase attempts n refused etag : Phase D) = .raised ↔
      (refusedRaises attempts n refused etag).isSome := by
  unfold refusedPhase refusedRaises
  split
  · simp
  · split <;> simp

theorem refusedPhase_again :
    (refusedPhase attempts n refused etag : Phase D).again = none := by
  unfold refusedPhase
  split
  · rfl
  · split <;> rfl

/-- An attempt is taken for a store that does not support conditional writes only where it puts
under an ETag that the one before it was refused under. -/
theorem again_of_unsupported (h : refusedRaises attempts n refused etag = some .unsupported)
    (updated : D) (untried : List Header) :
    ((Phase.putting n refused etag updated untried).again).isSome := by
  unfold refusedRaises at h
  split at h
  · next hsame =>
    obtain ⟨hetag, hrefused⟩ := (Bool.and_eq_true _ _).mp hsame
    rw [Phase.again, if_pos (of_decide_eq_true hrefused)]
    exact hetag
  · split at h <;> cases h

/-- A step of one call that leaves the object as it was. -/
theorem Contended.Inv.goes (hs : s.Inv wants etagOf) (hraised : p = .raised ↔ r.isSome)
    (hr : r ≠ some .unsupported) (hheld : ∀ tag ∈ p.again, s.object.map etagOf = some tag)
    (huntried : ∀ n refused etag updated untried, p = .putting n refused etag updated untried →
      ∀ tag ∈ p.again, ∃ form, Header.ifMatch form ∈ untried ∧ Takes wants form tag) :
    (s.goes i p r).Inv wants etagOf := by
  refine ⟨fun j => ?_, fun j => ?_, hs.suits, fun j => ?_, fun j => ?_⟩
  all_goals
    unfold Contended.goes
    by_cases hj : j = i
    · subst hj
      simp only [Function.update_self]
      assumption
    · simp only [Function.update_of_ne hj]
      first
        | exact hs.said j
        | exact hs.supported j
        | exact hs.held j
        | exact hs.untried j

theorem Contended.Inv.moves (hs : s.Inv wants etagOf) (hraised : p = .raised ↔ r.isSome)
    (hr : r ≠ some .unsupported) (hagain : p.again = none) : (s.goes i p r).Inv wants etagOf := by
  refine hs.goes hraised hr (fun tag htag => ?_) fun _ _ _ _ _ _ tag htag => ?_
  · rw [hagain] at htag
    cases htag
  · rw [hagain] at htag
    cases htag

theorem Contended.Inv.read (hs : s.Inv wants etagOf) :
    (s.read etagOf calls stamp i n refused outcome).Inv wants etagOf := by
  unfold Contended.read
  split
  · exact hs.moves (by simp) nofun rfl
  · next current etag hload =>
    split
    · exact hs.moves (by simp) nofun rfl
    · next updated _ =>
      refine hs.goes (by simp) nofun (fun tag htag => ?_) nofun
      have hobject : etag = s.object.map etagOf := by
        cases outcome with
        | getFails => cases hload
        | bodyFails | full =>
          obtain ⟨-, rfl⟩ := Prod.mk.inj (Option.some.inj hload)
          rw [Option.map_map]
          rfl
      rw [Phase.again] at htag
      split at htag
      · exact hobject.symm.trans htag
      · cases htag

omit [DecidableEq ι] in
/-- The object is given another content, or deleted. -/
theorem Contended.Inv.writes (object : Option D) (hs : s.Inv wants etagOf)
    (h : ∀ i, (s.phase i).again ≠ none → object.map etagOf = s.object.map etagOf) :
    { s with object := object }.Inv wants etagOf := by
  refine ⟨hs.said, hs.supported, hs.suits, fun i tag htag => ?_, hs.untried⟩
  rw [h i (Option.ne_none_iff_exists'.2 ⟨tag, htag⟩)]
  exact hs.held i tag htag

theorem Contended.Inv.taken (hs : s.Inv wants etagOf) (hmet : header.Met wants etagOf s.object)
    (hothers : ∀ j, j ≠ i → (s.phase j).again ≠ none →
      (some updated).map etagOf = s.object.map etagOf) :
    (s.taken calls i updated header).Inv wants etagOf := by
  have hgone : (s.goes i (.returned updated) none).Inv wants etagOf := hs.moves (by simp) nofun rfl
  have hwritten := hgone.writes (some updated) fun j hj => by
    by_cases hji : j = i
    · subst hji
      simp only [Contended.goes, Function.update_self] at hj
      exact absurd rfl hj
    · simp only [Contended.goes, Function.update_of_ne hji] at hj
      exact hothers j hji hj
  refine ⟨hwritten.said, hwritten.supported, fun process => ?_, hwritten.held, hwritten.untried⟩
  cases header with
  | ifNoneMatch => exact hs.suits process
  | ifMatch form =>
    obtain ⟨d, -, htakes⟩ := hmet
    by_cases hprocess : process = (calls i).process
    · subst hprocess
      simp only [Contended.taken, Function.update_self]
      exact suits_latch (hs.suits _) htakes
    · simp only [Contended.taken, Function.update_of_ne hprocess]
      exact hs.suits process

omit [DecidableEq ι] in
/-- A call that puts under an ETag that it was refused under before has a form left that the store
takes for the object. -/
theorem Contended.Inv.exists_met (hs : s.Inv wants etagOf)
    (hphase : s.phase i = .putting n refused etag updated untried)
    (hagain : (s.phase i).again ≠ none) :
    ∃ header ∈ untried, header.Met wants etagOf s.object := by
  obtain ⟨tag, htag⟩ := Option.ne_none_iff_exists'.1 hagain
  obtain ⟨form, hform, htakes⟩ := hs.untried i _ _ _ _ _ hphase tag htag
  obtain ⟨d, hd, rfl⟩ := Option.map_eq_some_iff.1 (hs.held i tag htag)
  exact ⟨_, hform, d, hd, htakes⟩

theorem Contended.Inv.put (hs : s.Inv wants etagOf)
    (hphase : s.phase i = .putting n refused etag updated (header :: untried))
    (hunmoved : Unmoved wants etagOf s (.put i false)) :
    (s.put wants etagOf calls attempts i n refused etag updated header untried).Inv wants
      etagOf := by
  unfold Contended.put
  split
  · next hmet =>
    refine hs.taken hmet fun j hj hagain => ?_
    refine hunmoved (some updated) ?_ j (fun h => hj ?_) hagain
    · simp [Contended.writes, hphase, hmet]
    · injection h with h
      exact h.symm
  next hrefused =>
  split
  · next huntried =>
    subst huntried
    refine hs.moves refusedPhase_raised_iff (fun hraises => ?_) refusedPhase_again
    have hagain := again_of_unsupported hraises updated [header]
    rw [← hphase] at hagain
    obtain ⟨header', hmem, hmet⟩ := hs.exists_met hphase (Option.isSome_iff_ne_none.1 hagain)
    exact hrefused (List.mem_singleton.1 hmem ▸ hmet)
  · have hsame : (Phase.putting n refused etag updated untried).again = (s.phase i).again := by
      rw [hphase]
      rfl
    refine hs.goes (by simp) nofun (fun tag htag => ?_) ?_
    · rw [hsame] at htag
      exact hs.held i tag htag
    · intro n' refused' etag' updated' untried' hputting tag htag
      obtain ⟨-, -, -, -, rfl⟩ := Phase.putting.inj hputting
      rw [hsame] at htag
      obtain ⟨form, hform, htakes⟩ := hs.untried i _ _ _ _ _ hphase tag htag
      refine ⟨form, (List.mem_cons.1 hform).resolve_left ?_, htakes⟩
      rintro rfl
      obtain ⟨d, hd, rfl⟩ := Option.map_eq_some_iff.1 (hs.held i tag htag)
      exact hrefused ⟨d, hd, htakes⟩

theorem Contended.Inv.forms (hs : s.Inv wants etagOf)
    (hphase : s.phase i = .made n refused etag updated) :
    (s.goes i (.putting n refused etag updated (headers (s.styles (calls i).process) etag))
      none).Inv wants etagOf := by
  have hsame : (Phase.putting n refused etag updated
      (headers (s.styles (calls i).process) etag)).again = (s.phase i).again := by
    rw [hphase]
    rfl
  refine hs.goes (by simp) nofun (fun tag htag => ?_) ?_
  · rw [hsame] at htag
    exact hs.held i tag htag
  · intro n' refused' etag' updated' untried' hputting tag htag
    obtain ⟨-, -, -, -, rfl⟩ := Phase.putting.inj hputting
    obtain rfl : etag = some tag := by
      rw [Phase.again] at htag
      split at htag
      · exact htag
      · cases htag
    obtain ⟨form, hform, htakes⟩ := exists_takes (hs.suits (calls i).process) tag
    exact ⟨form, List.mem_map_of_mem hform, htakes⟩

theorem Contended.Inv.step (hs : s.Inv wants etagOf) (hunmoved : Unmoved wants etagOf s a)
    (h : (contending wants etagOf calls stamp attempts).step s a = some t) :
    t.Inv wants etagOf := by
  cases a with
  | start i =>
    simp only [contending] at h
    split at h
    · obtain rfl := Option.some.inj h
      split
      · exact hs.moves (by simp) nofun rfl
      · exact hs.moves (by simp) nofun rfl
    · cases h
  | read i outcome =>
    simp only [contending] at h
    split at h
    · obtain rfl := Option.some.inj h
      exact hs.read
    · cases h
  | forms i =>
    simp only [contending] at h
    split at h
    · next hphase =>
      obtain rfl := Option.some.inj h
      exact hs.forms hphase
    · cases h
  | put i fails =>
    simp only [contending] at h
    split at h
    · next hphase =>
      obtain rfl := Option.some.inj h
      cases fails with
      | true => exact hs.moves (by simp) nofun rfl
      | false => exact hs.put hphase hunmoved
    · cases h
  | save d =>
    obtain rfl := Option.some.inj h
    exact hs.writes (some d) fun i => hunmoved (some d) rfl i nofun
  | delete =>
    obtain rfl := Option.some.inj h
    exact hs.writes none fun i => hunmoved none rfl i nofun

/-- **No call reports a store that honours conditional writes as one that does not**, where nobody
changes the object while a call puts under an ETag that it was refused under before. -/
theorem diagnosis_of_meets (hs : (contending wants etagOf calls stamp attempts).start s)
    (hsuits : ∀ process, wants.Suits (s.styles process)) {as : List (DiagnosisAct ι D)}
    (h : (contending wants etagOf calls stamp attempts).run s as = some t)
    (hmeets : (contending wants etagOf calls stamp attempts).Meets (Unmoved wants etagOf) s as) :
    t.Upheld := by
  have hinv : s.Inv wants etagOf := by
    refine ⟨fun i => ?_, fun i => ?_, hsuits, fun i tag htag => ?_, ?_⟩
    · rw [(hs i).1, (hs i).2]
      exact iff_of_false nofun nofun
    · rw [(hs i).2]
      exact nofun
    · rw [(hs i).1] at htag
      cases htag
    · intro i _ _ _ _ _ hphase
      rw [(hs i).1] at hphase
      cases hphase
  have hlater : t.Inv wants etagOf := (Machine.Later.of_meets .refl h hmeets).relate
    (R := fun _ u : Contended ι D => u.Inv wants etagOf) hinv
    fun _ _ _ _ hu hc hv => hu.step hc hv
  intro i hraised
  obtain ⟨r, hr⟩ := Option.isSome_iff_exists.1 ((hlater.said i).1 hraised)
  exact ⟨r, hr, fun h => hlater.supported i (h ▸ hr)⟩

end

/-! ## A content that comes back -/

/-- An ETag for each count. -/
def tally (n : ℕ) : Text := '"' :: (List.replicate n 'a' ++ ['"'])

def contended : Contended Bool ℕ where
  object := some 0
  styles _ := none
  phase _ := .idle
  raises _ := none

/-- Both calls read; one puts, in the form the store wants, and the other is refused, reads again
and puts. -/
def oneRace : List (DiagnosisAct Bool ℕ) :=
  [.start true, .start false, .read true .full, .read false .full, .forms true, .forms false,
    .put true false, .put true false, .put false false, .put false false, .read false .full,
    .forms false, .put false false]

theorem diagnosis_of_meets_race :
    ∃ t ∈ (contending .bare tally adding id 8).run contended oneRace,
      t.object = some 2 ∧ t.Upheld := by
  have hrun : ((contending .bare tally adding id 8).run contended oneRace).map
      Contended.object = some (some 2) := by decide
  obtain ⟨t, ht, hobject⟩ := Option.map_eq_some_iff.1 hrun
  have hmeets : (contending .bare tally adding id 8).Meets (Unmoved .bare tally) contended
      oneRace := by decide
  have hsuits : ∀ process, Wants.bare.Suits (contended.styles process) := fun _ => trivial
  exact ⟨t, ht, hobject, diagnosis_of_meets (fun _ => ⟨rfl, rfl⟩) hsuits ht hmeets⟩

/-- Another writer changes the count before each put of the call, and brings it back before its
second read. -/
def countComesBack : List (DiagnosisAct Bool ℕ) :=
  [.start true, .read true .full, .save 1, .forms true, .put true false, .put true false, .save 0,
    .read true .full, .save 1, .forms true, .put true false, .put true false]

theorem refused_twice_by_races : (contending .quoted tally adding id 8).start contended ∧
    ∃ t ∈ (contending .quoted tally adding id 8).run contended countComesBack,
      t.raises true = some .unsupported ∧ ¬ t.Upheld := by
  refine ⟨fun _ => ⟨rfl, rfl⟩, ?_⟩
  have hrun : ((contending .quoted tally adding id 8).run contended countComesBack).map
      (fun t => (t.phase true, t.raises true)) = some (.raised, some .unsupported) := by decide
  obtain ⟨t, ht, hseen⟩ := Option.map_eq_some_iff.1 hrun
  obtain ⟨hphase, hraises⟩ := Prod.mk.inj hseen
  refine ⟨t, ht, hraises, fun hupheld => ?_⟩
  obtain ⟨r, hr, hne⟩ := hupheld true hphase
  rw [hraises] at hr
  exact hne (Option.some.inj hr).symm

end ResidentCrm.Storage.Update
