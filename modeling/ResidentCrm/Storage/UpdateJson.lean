import ResidentCrm.Lib.Machine
import ResidentCrm.Lib.Register
import ResidentCrm.Lib.Text
import Mathlib.Data.List.Nodup
import Mathlib.Logic.Function.Basic

/-!
# Updates by conditional writes

`S3CasebookStorage.update_json` of `storage/s3.py`, for any number of calls on one key: a call reads
the document and its ETag, applies its function, and puts the result on the condition that the ETag
is still the object's, in each form the endpoint may want it. The endpoint accepts a put only where
its condition holds; it may refuse any put, and a put may fail, without landing.
-/

namespace ResidentCrm.Storage.Update

universe u v

/-! ## ETags -/

/-- `etag.strip('"')`. -/
def bare (etag : Text) : Text := (etag.dropWhile (· = '"')).rdropWhile (· = '"')

def quoted (etag : Text) : Text := if etag.head? = some '"' then etag else '"' :: (etag ++ ['"'])

/-- `_etag_style_resolved`, as far as it is set. -/
inductive Style where
  | bare
  | quoted
  | other
deriving DecidableEq, Repr

/-- `_etag_forms`. -/
def etagForms (resolved : Option Style) (etag : Text) : List Text :=
  match resolved with
  | some .bare => [bare etag]
  | some .quoted => [quoted etag]
  | _ => [quoted etag, bare etag].foldl (fun forms form =>
      if form ∈ forms then forms else forms ++ [form]) [etag]

/-- `_latch_etag_style`. -/
def latch (resolved : Option Style) (accepted : Text) : Option Style :=
  resolved.or (some (if accepted.head? = some '"' then .quoted else .bare))

theorem bare_quotes (etag : Text) : bare ('"' :: (etag ++ ['"'])) = bare etag := by
  unfold bare
  rw [List.dropWhile_cons_of_pos (by simp)]
  by_cases hall : ∀ c ∈ etag, c = '"'
  · have hnil : (etag ++ ['"']).dropWhile (· = '"') = [] := by
      refine List.dropWhile_eq_nil_iff.2 fun c hc => ?_
      rcases List.mem_append.1 hc with hc | hc
      · simpa using hall c hc
      · simpa using hc
    have hnil' : etag.dropWhile (· = '"') = [] :=
      List.dropWhile_eq_nil_iff.2 fun c hc => by simpa using hall c hc
    rw [hnil, hnil']
  · have hsome : etag.dropWhile (· = '"') ≠ [] := by
      intro hnil
      exact hall fun c hc => by simpa using List.dropWhile_eq_nil_iff.1 hnil c hc
    rw [List.dropWhile_append, if_neg (by simpa using hsome),
      List.rdropWhile_concat_pos _ _ _ (by simp)]

theorem bare_quoted (etag : Text) : bare (quoted etag) = bare etag := by
  unfold quoted
  split
  · rfl
  · exact bare_quotes etag

theorem bare_bare (etag : Text) : bare (bare etag) = bare etag := by
  have hhead : ∀ l : Text, (∀ c ∈ l.head?, c ≠ '"') → (l.dropWhile (· = '"')) = l := by
    rintro (_ | ⟨c, l⟩) hl
    · rfl
    · exact List.dropWhile_cons_of_neg (by simpa using hl c rfl)
  have hstripped : ∀ c ∈ (bare etag).head?, c ≠ '"' := by
    intro c hc
    unfold bare at hc
    obtain ⟨rest, hrest⟩ := List.rdropWhile_prefix (· = '"') (etag.dropWhile (· = '"'))
    have hc' : (etag.dropWhile (· = '"')).head? = some c := by
      rw [← hrest, List.head?_append, Option.mem_def.1 hc]
      rfl
    have hnot := List.head?_dropWhile_not (fun c => decide (c = '"')) etag
    rw [hc'] at hnot
    simpa using hnot
  calc bare (bare etag) = (bare etag).rdropWhile (· = '"') := by
        rw [bare, hhead _ hstripped]
    _ = bare etag := List.rdropWhile_idempotent _ _

/-- Every form of an ETag is it, up to quotes. -/
theorem bare_of_mem_etagForms {resolved : Option Style} {etag form : Text}
    (h : form ∈ etagForms resolved etag) : bare form = bare etag := by
  have hform : form = etag ∨ form = quoted etag ∨ form = bare etag := by
    unfold etagForms at h
    split at h
    · exact .inr (.inr (List.mem_singleton.1 h))
    · exact .inr (.inl (List.mem_singleton.1 h))
    · simp only [List.foldl_cons, List.foldl_nil] at h
      split at h <;> split at h <;> simp at h <;> tauto
  rcases hform with rfl | rfl | rfl
  · rfl
  · exact bare_quoted etag
  · exact bare_bare etag

/-! ## The calls -/

/-- A call of `update_json`: its process, and its function, which may raise. -/
structure Call (D : Type u) where
  process : ℕ
  mutate : Option D → Option D

inductive Header where
  | ifNoneMatch
  | ifMatch (form : Text)
deriving DecidableEq, Repr

def headers (resolved : Option Style) : Option Text → List Header
  | none => [.ifNoneMatch]
  | some etag => (etagForms resolved etag).map .ifMatch

/-- Where a call is: about to read in its attempt `n`, having been refused under the ETag `refused`
before; having made what it is to put of what it read; or about to put it, in these forms. -/
inductive Phase (D : Type u) where
  | idle
  | reading (n : ℕ) (refused : Option Text)
  | made (n : ℕ) (refused etag : Option Text) (updated : D)
  | putting (n : ℕ) (refused etag : Option Text) (updated : D) (untried : List Header)
  | returned (updated : D)
  | raised
deriving DecidableEq

/-- `get_object` raises, or the body of what it returns does, or is cut short; or all is read. -/
inductive Read where
  | getFails
  | bodyFails
  | full
deriving DecidableEq, Repr

/-- The endpoint takes the put and gives the object this ETag, or refuses it; or the put fails. -/
inductive Answer where
  | accepts (etag : Text)
  | refuses
  | fails
deriving DecidableEq, Repr

inductive UpdateAct (ι : Type v) where
  | start (i : ι)
  | read (i : ι) (outcome : Read)
  | forms (i : ι)
  | put (i : ι) (answer : Answer)

abbrev Object (D : Type u) := Register D Text bare

/-- The object, the form of an ETag each process has settled on, and the calls. As history, the
updates that landed, and the calls that were given nothing where there was an object. -/
structure Updates (ι : Type v) (D : Type u) where
  object : Object D
  styles : ℕ → Option Style
  phase : ι → Phase D
  landed : List (ι × D)
  blind : List ι

variable {ι : Type v} {D : Type u}

/-- `_load_with_etag`: the document and its ETag, or `none` for `_READ_FAILED`. -/
def loadWithEtag (current : Option (D × Text)) : Read → Option (Option D × Option Text)
  | .getFails => none
  | .bodyFails => some (none, current.map Prod.snd)
  | .full => some (current.map Prod.fst, current.map Prod.snd)

/-- The document after the update, with its schema version. -/
def Call.apply (stamp : D → D) (c : Call D) (current : Option D) : Option D :=
  (c.mutate current).map stamp

/-- The condition of a put holds. -/
def Header.Holds (current : Option (D × Text)) : Header → Prop
  | .ifNoneMatch => current = none
  | .ifMatch form => ∃ x ∈ current, bare form = bare x.2

instance (current : Option (D × Text)) : (header : Header) → Decidable (header.Holds current)
  | .ifNoneMatch => decidable_of_iff _ Option.isNone_iff_eq_none
  | .ifMatch form =>
    decidable_of_iff (current.any fun x => bare form = bare x.2)
      (by simp [Header.Holds, Option.any_eq_true])

/-- After the last refusal of an attempt. -/
def refusedPhase (attempts n : ℕ) (refused etag : Option Text) : Phase D :=
  if etag.isSome && etag = refused then .raised
  else if n + 1 < attempts then .reading (n + 1) etag
  else .raised

section

variable [DecidableEq ι] [DecidableEq D] (calls : ι → Call D) (stamp : D → D) (attempts : ℕ)

def Updates.setPhase (s : Updates ι D) (i : ι) (p : Phase D) : Updates ι D :=
  { s with phase := Function.update s.phase i p }

/-- A call applies its function to what it was given. -/
def Updates.given (s : Updates ι D) (i : ι) (n : ℕ) (refused : Option Text) (current : Option D)
    (etag : Option Text) : Updates ι D :=
  s.setPhase i <| match (calls i).apply stamp current with
    | none => .raised
    | some updated => .made n refused etag updated

/-- A call reads. -/
def Updates.read (s : Updates ι D) (i : ι) (n : ℕ) (refused : Option Text) (outcome : Read) :
    Updates ι D :=
  match loadWithEtag s.object.current outcome with
  | none => s.setPhase i .raised
  | some (current, etag) =>
    if current.isNone && s.object.current.isSome then
      { s with blind := i :: s.blind }.given calls stamp i n refused current etag
    else s.given calls stamp i n refused current etag

/-- The styles after an accepted put. -/
def Updates.latched (s : Updates ι D) (process : ℕ) : Header → ℕ → Option Style
  | .ifNoneMatch => s.styles
  | .ifMatch form => Function.update s.styles process (latch (s.styles process) form)

/-- One put of a call that is about to put `updated` under `header`. -/
def Updates.put (s : Updates ι D) (i : ι) (n : ℕ) (refused etag : Option Text) (updated : D)
    (header : Header) (untried : List Header) : Answer → Option (Updates ι D)
  | .accepts given =>
    if h : header.Holds s.object.current ∧ s.object.Admits updated given then
      some
        { object := s.object.put updated given h.2
          styles := s.latched (calls i).process header
          phase := Function.update s.phase i (.returned updated)
          landed := s.landed ++ [(i, updated)]
          blind := s.blind }
    else none
  | .refuses => some <| s.setPhase i <|
      if untried = [] then refusedPhase attempts n refused etag
      else .putting n refused etag updated untried
  | .fails => some (s.setPhase i .raised)

def updating : Machine (Updates ι D) (UpdateAct ι) where
  start s := (∀ i, s.phase i = .idle) ∧ s.landed = [] ∧ s.blind = []
  step s
    | .start i => match s.phase i with
      | .idle => some (s.setPhase i (if 0 < attempts then .reading 0 none else .raised))
      | _ => none
    | .read i outcome => match s.phase i with
      | .reading n refused => some (s.read calls stamp i n refused outcome)
      | _ => none
    | .forms i => match s.phase i with
      | .made n refused etag updated => some <|
        s.setPhase i (.putting n refused etag updated (headers (s.styles (calls i).process) etag))
      | _ => none
    | .put i answer => match s.phase i with
      | .putting n refused etag updated (header :: untried) =>
        s.put calls attempts i n refused etag updated header untried answer
      | _ => none

end

/-! ## What is promised, and when -/

/-- What the calls have done is what their functions do one after another, each of a call that has
returned once and of no other; and an object that was there was given to every one that read it. -/
structure Updates.Upheld [DecidableEq ι] (calls : ι → Call D) (stamp : D → D) (s s₀ : Updates ι D) :
    Prop where
  serial : Serially (fun i => (calls i).apply stamp) (s₀.object.current.map Prod.fst) s.landed
    (s.object.current.map Prod.fst)
  once : (s.landed.map Prod.fst).Nodup
  returned : ∀ i d, s.phase i = .returned d ↔ (i, d) ∈ s.landed
  read : s.blind = []

/-- The body of an object that is there can be read. -/
def BodyRead (s : Updates ι D) : UpdateAct ι → Prop
  | .read _ .bodyFails => s.object.current = none
  | _ => True

/-- What a call is about to put is its function's result on a content the object has had under the
ETag it puts it under, or on nothing. -/
def Phase.Faithful (calls : ι → Call D) (stamp : D → D) (versions : List (D × Text)) (i : ι) :
    Phase D → Prop
  | .made _ _ none updated => (calls i).apply stamp none = some updated
  | .made _ _ (some etag) updated =>
    ∃ x ∈ versions, x.2 = etag ∧ (calls i).apply stamp (some x.1) = some updated
  | .putting _ _ etag updated untried => ∀ header ∈ untried, match header, etag with
    | .ifNoneMatch, none => (calls i).apply stamp none = some updated
    | .ifMatch form, some etag => bare form = bare etag ∧
        ∃ x ∈ versions, x.2 = etag ∧ (calls i).apply stamp (some x.1) = some updated
    | _, _ => False
  | _ => True

/-- The invariant of every run. -/
structure Updates.Inv [DecidableEq ι] (calls : ι → Call D) (stamp : D → D) (s s₀ : Updates ι D) :
    Prop where
  once : (s.landed.map Prod.fst).Nodup
  returned : ∀ i d, s.phase i = .returned d ↔ (i, d) ∈ s.landed
  serial : s.blind = [] → Serially (fun i => (calls i).apply stamp)
    (s₀.object.current.map Prod.fst) s.landed (s.object.current.map Prod.fst)
  faithful : s.blind = [] → ∀ i, (s.phase i).Faithful calls stamp s.object.versions i

section

variable [DecidableEq ι] {calls : ι → Call D} {stamp : D → D} {s s₀ t : Updates ι D} {i : ι}
  {versions versions' : List (D × Text)} {p : Phase D}

omit [DecidableEq ι] in
theorem Phase.Faithful.mono (h : p.Faithful calls stamp versions i) (hsub : versions ⊆ versions') :
    p.Faithful calls stamp versions' i := by
  cases p with
  | putting n refused etag updated untried =>
    intro header hheader
    have hold := h header hheader
    cases header <;> cases etag
    · exact hold
    · exact hold
    · exact hold
    · obtain ⟨hform, x, hx, hetag, happly⟩ := hold
      exact ⟨hform, x, hsub hx, hetag, happly⟩
  | made n refused etag updated =>
    cases etag with
    | none => exact h
    | some etag =>
      obtain ⟨x, hx, hetag, happly⟩ := h
      exact ⟨x, hsub hx, hetag, happly⟩
  | idle => trivial
  | reading n refused => trivial
  | returned updated => trivial
  | raised => trivial

theorem inv_setPhase (hs : s.Inv calls stamp s₀) (hi : ∀ d, s.phase i ≠ .returned d)
    (hp : ∀ d, p ≠ .returned d) (hfaithful : s.blind = [] →
      p.Faithful calls stamp s.object.versions i) : (s.setPhase i p).Inv calls stamp s₀ := by
  refine ⟨hs.once, fun j d => ?_, hs.serial, fun hblind j => ?_⟩
  · change Function.update s.phase i p j = .returned d ↔ (j, d) ∈ s.landed
    by_cases hj : j = i
    · subst hj
      rw [Function.update_self, ← hs.returned]
      exact iff_of_false (hp d) (hi d)
    · rw [Function.update_of_ne hj]
      exact hs.returned j d
  · change (Function.update s.phase i p j).Faithful calls stamp s.object.versions j
    by_cases hj : j = i
    · subst hj
      rw [Function.update_self]
      exact hfaithful hblind
    · rw [Function.update_of_ne hj]
      exact hs.faithful hblind j

/-- A call that was given nothing where there was an object spoils what is kept of the others. -/
theorem inv_blind (hs : s.Inv calls stamp s₀) (i : ι) :
    { s with blind := i :: s.blind }.Inv calls stamp s₀ :=
  ⟨hs.once, hs.returned, fun h => (List.cons_ne_nil _ _ h).elim,
    fun h => (List.cons_ne_nil _ _ h).elim⟩

theorem refusedPhase_ne_returned {attempts n : ℕ} {refused etag : Option Text} {d : D} :
    (refusedPhase attempts n refused etag : Phase D) ≠ .returned d := by
  unfold refusedPhase
  split
  · exact nofun
  · split <;> exact nofun

omit [DecidableEq ι] in
theorem faithful_refusedPhase {attempts n : ℕ} {refused etag : Option Text} :
    (refusedPhase attempts n refused etag).Faithful calls stamp versions i := by
  unfold refusedPhase
  split
  · trivial
  · split <;> trivial

omit [DecidableEq ι] in
/-- What was read, and not blindly, is made use of faithfully. -/
theorem faithful_made {r : Object D} {outcome : Read} {current : Option D}
    {etag : Option Text} (h : loadWithEtag r.current outcome = some (current, etag))
    (hsees : current = none → r.current = none) {updated : D}
    (happly : (calls i).apply stamp current = some updated) (n : ℕ) (refused : Option Text) :
    (Phase.made n refused etag updated).Faithful calls stamp r.versions i := by
  cases hcurrent : r.current with
  | none =>
    have hnone : current = none ∧ etag = none := by
      rw [hcurrent] at h
      cases outcome <;> simp [loadWithEtag] at h
      · exact ⟨h.1.symm, h.2.symm⟩
      · exact ⟨h.1.symm, h.2.symm⟩
    obtain ⟨rfl, rfl⟩ := hnone
    exact happly
  | some x =>
    have hsome : current = some x.1 ∧ etag = some x.2 := by
      rw [hcurrent] at h hsees
      cases outcome with
      | getFails => cases h
      | bodyFails =>
        simp only [loadWithEtag, Option.some.injEq, Prod.mk.injEq] at h
        cases hsees h.1.symm
      | full =>
        simp only [loadWithEtag, Option.some.injEq, Prod.mk.injEq] at h
        exact ⟨h.1.symm, h.2.symm⟩
    obtain ⟨rfl, rfl⟩ := hsome
    exact ⟨x, r.mem x hcurrent, rfl, happly⟩

omit [DecidableEq ι] in
/-- What was made faithfully is put faithfully, whatever the forms. -/
theorem faithful_headers {n : ℕ} {refused etag : Option Text} {updated : D}
    (h : (Phase.made n refused etag updated).Faithful calls stamp versions i)
    (resolved : Option Style) : (Phase.putting n refused etag updated
      (headers resolved etag)).Faithful calls stamp versions i := by
  cases etag with
  | none =>
    intro header hheader
    rw [List.mem_singleton.1 hheader]
    exact h
  | some etag =>
    intro header hheader
    obtain ⟨form, hform, rfl⟩ := List.mem_map.1 hheader
    exact ⟨bare_of_mem_etagForms hform, h⟩

variable [DecidableEq D] {attempts n : ℕ} {refused etag : Option Text} {updated : D}
  {header : Header} {untried : List Header} {outcome : Read} {answer : Answer} {a : UpdateAct ι}

omit [DecidableEq D] in
theorem given_spec {current : Option D} (hs : s.Inv calls stamp s₀)
    (hi : ∀ d, s.phase i ≠ .returned d)
    (hload : loadWithEtag s.object.current outcome = some (current, etag))
    (hsees : s.blind = [] → current = none → s.object.current = none) :
    (s.given calls stamp i n refused current etag).Inv calls stamp s₀ := by
  unfold Updates.given
  cases happly : (calls i).apply stamp current with
  | none => exact inv_setPhase hs hi nofun fun _ => trivial
  | some updated =>
    exact inv_setPhase hs hi nofun fun hblind =>
      faithful_made hload (hsees hblind) happly n refused

omit [DecidableEq ι] [DecidableEq D] in
/-- What is given is nothing where there is an object exactly where its body was not read. -/
theorem sees_iff {current : Option D}
    (hload : loadWithEtag s.object.current outcome = some (current, etag)) :
    (current.isNone && s.object.current.isSome) = false ↔ BodyRead s (.read i outcome) := by
  cases outcome with
  | getFails => cases hload
  | bodyFails =>
    simp only [loadWithEtag, Option.some.injEq, Prod.mk.injEq] at hload
    obtain ⟨rfl, -⟩ := hload
    cases hcurrent : s.object.current <;> simp [BodyRead, hcurrent]
  | full =>
    simp only [loadWithEtag, Option.some.injEq, Prod.mk.injEq] at hload
    obtain ⟨rfl, -⟩ := hload
    cases hcurrent : s.object.current <;> simp [BodyRead]

omit [DecidableEq D] in
/-- The states a read leads to. -/
theorem read_spec (hs : s.Inv calls stamp s₀) (hphase : s.phase i = .reading n refused) :
    (s.read calls stamp i n refused outcome).Inv calls stamp s₀ ∧
      ((s.read calls stamp i n refused outcome).blind = [] ↔
        s.blind = [] ∧ BodyRead s (.read i outcome)) := by
  have hi : ∀ d, s.phase i ≠ .returned d := by
    intro d
    rw [hphase]
    exact nofun
  unfold Updates.read
  cases hload : loadWithEtag s.object.current outcome with
  | none =>
    have houtcome : outcome = .getFails := by
      cases outcome <;> simp [loadWithEtag] at hload
      rfl
    subst houtcome
    exact ⟨inv_setPhase hs hi nofun fun _ => trivial, (and_iff_left trivial).symm⟩
  | some loaded =>
    obtain ⟨current, etag⟩ := loaded
    rw [← sees_iff (i := i) hload]
    cases hsees : (current.isNone && s.object.current.isSome) with
    | true =>
      simp only [hsees, if_true]
      refine ⟨given_spec (inv_blind hs i) hi hload fun h => (List.cons_ne_nil _ _ h).elim, ?_⟩
      exact iff_of_false (List.cons_ne_nil _ _) fun h => Bool.noConfusion h.2
    | false =>
      simp only [hsees, Bool.false_eq_true, if_false]
      refine ⟨given_spec hs hi hload fun _ hnone => ?_, (and_iff_left trivial).symm⟩
      simpa [hnone] using hsees

omit [DecidableEq ι] [DecidableEq D] in
/-- The condition of a put says that the object is what the call was given. -/
theorem Phase.Faithful.apply_of_holds
    (h : (Phase.putting n refused etag updated (header :: untried)).Faithful calls stamp
      s.object.versions i) (hholds : header.Holds s.object.current) :
    (calls i).apply stamp (s.object.current.map Prod.fst) = some updated := by
  have hhead := h header List.mem_cons_self
  cases header with
  | ifNoneMatch =>
    rw [show s.object.current = none from hholds]
    cases etag with
    | none => exact hhead
    | some etag => exact hhead.elim
  | ifMatch form =>
    cases etag with
    | none => exact hhead.elim
    | some etag =>
      obtain ⟨hform, ⟨d, tag'⟩, hread, rfl, happly⟩ := hhead
      obtain ⟨⟨d', tag''⟩, hcurrent, hmatch⟩ := hholds
      have hcontent : d = d' :=
        Register.content_of_tag hread hcurrent (hform.symm.trans hmatch)
      rw [Option.mem_def.1 hcurrent, Option.map_some, ← hcontent]
      exact happly

/-- The states a put leads to. -/
theorem put_spec (hs : s.Inv calls stamp s₀)
    (hphase : s.phase i = .putting n refused etag updated (header :: untried))
    (h : s.put calls attempts i n refused etag updated header untried answer = some t) :
    t.Inv calls stamp s₀ ∧ t.blind = s.blind := by
  have hi : ∀ d, s.phase i ≠ .returned d := by
    intro d
    rw [hphase]
    exact nofun
  cases answer with
  | fails =>
    obtain rfl := Option.some.inj h
    exact ⟨inv_setPhase hs hi nofun fun _ => trivial, rfl⟩
  | refuses =>
    obtain rfl := Option.some.inj h
    split
    · exact ⟨inv_setPhase hs hi (fun d => refusedPhase_ne_returned) fun _ =>
        faithful_refusedPhase, rfl⟩
    · refine ⟨inv_setPhase hs hi nofun fun hblind header hheader => ?_, rfl⟩
      have hfaithful := hs.faithful hblind i
      rw [hphase] at hfaithful
      exact hfaithful header (List.mem_cons_of_mem _ hheader)
  | accepts tag =>
    simp only [Updates.put] at h
    split at h
    swap
    · cases h
    next hput =>
    obtain rfl := Option.some.inj h
    obtain ⟨hholds, hadmits⟩ := hput
    have hnew : ∀ d, (i, d) ∉ s.landed := fun d hd => hi d ((hs.returned i d).2 hd)
    refine ⟨⟨?_, fun j d => ?_, fun hblind => ?_, fun hblind j => ?_⟩, rfl⟩
    · rw [List.map_append]
      refine List.nodup_append.2 ⟨hs.once, List.nodup_singleton _, ?_⟩
      rintro j hj k hk rfl
      obtain ⟨⟨j', d⟩, hmem, rfl⟩ := List.mem_map.1 hj
      obtain rfl : j' = i := by simpa using hk
      exact hnew d hmem
    · by_cases hj : j = i
      · subst hj
        simp only [Function.update_self, List.mem_append, List.mem_singleton, Prod.mk.injEq,
          true_and, hnew d, false_or, Phase.returned.injEq]
        exact eq_comm
      · simp only [Function.update_of_ne hj, List.mem_append, List.mem_singleton, Prod.mk.injEq, hj,
          false_and, or_false]
        exact hs.returned j d
    · have hfaithful := hs.faithful hblind i
      rw [hphase] at hfaithful
      exact (hs.serial hblind).concat (hfaithful.apply_of_holds hholds)
    · by_cases hj : j = i
      · subst hj
        simp only [Function.update_self]
        trivial
      · simp only [Function.update_of_ne hj]
        exact (hs.faithful hblind j).mono (List.subset_cons_self _ _)

theorem inv_step (hs : s.Inv calls stamp s₀)
    (h : (updating calls stamp attempts).step s a = some t) :
    t.Inv calls stamp s₀ ∧ (t.blind = [] ↔ s.blind = [] ∧ BodyRead s a) := by
  cases a with
  | start i =>
    simp only [updating] at h
    split at h
    · next hphase =>
      obtain rfl := Option.some.inj h
      have hi : ∀ d, s.phase i ≠ .returned d := by
        intro d
        rw [hphase]
        exact nofun
      refine ⟨inv_setPhase hs hi (fun d => ?_) fun _ => ?_, (and_iff_left trivial).symm⟩
      · split <;> exact nofun
      · split <;> trivial
    · cases h
  | read i outcome =>
    simp only [updating] at h
    split at h
    · next n refused hphase =>
      obtain rfl := Option.some.inj h
      exact read_spec hs hphase
    · cases h
  | forms i =>
    simp only [updating] at h
    split at h
    · next n refused etag updated hphase =>
      obtain rfl := Option.some.inj h
      have hi : ∀ d, s.phase i ≠ .returned d := by
        intro d
        rw [hphase]
        exact nofun
      refine ⟨inv_setPhase hs hi nofun fun hblind => ?_, (and_iff_left trivial).symm⟩
      have hfaithful := hs.faithful hblind i
      rw [hphase] at hfaithful
      exact faithful_headers hfaithful _
    · cases h
  | put i answer =>
    simp only [updating] at h
    split at h
    · next n refused etag updated header untried hphase =>
      obtain ⟨hinv, hblind⟩ := put_spec hs hphase h
      rw [hblind]
      exact ⟨hinv, (and_iff_left trivial).symm⟩
    · cases h

omit [DecidableEq D] in
theorem upheld_iff (hs : s.Inv calls stamp s₀) : s.Upheld calls stamp s₀ ↔ s.blind = [] :=
  ⟨fun h => h.read, fun h => ⟨hs.serial h, hs.once, hs.returned, h⟩⟩

/-- **No update is lost, and none is made of nothing, exactly where every body can be read.** -/
theorem upheld_iff_meets (hs : (updating calls stamp attempts).start s)
    {as : List (UpdateAct ι)} (h : (updating calls stamp attempts).run s as = some t) :
    t.Upheld calls stamp s ↔ (updating calls stamp attempts).Meets BodyRead s as := by
  obtain ⟨hidle, hlanded, hblind⟩ := hs
  have hinv : s.Inv calls stamp s := by
    refine ⟨?_, fun i d => ?_, fun _ => ?_, fun _ i => ?_⟩
    · rw [hlanded]
      exact List.nodup_nil
    · rw [hidle, hlanded]
      exact iff_of_false nofun nofun
    · rw [hlanded]
      rfl
    · rw [hidle]
      trivial
  have hrun : ∀ u, (updating calls stamp attempts).Later Machine.anyStep s u →
      u.Inv calls stamp s := by
    intro u hu
    exact hu.relate (R := fun s u : Updates ι D => u.Inv calls stamp s) hinv
      fun _ _ _ _ hu _ hv => (inv_step hu hv).1
  rw [upheld_iff (hrun t (.of_run .refl h)),
    Machine.keeps_iff_meets (M := updating calls stamp attempts) (C := BodyRead)
      (I := fun u => u.Inv calls stamp s) (P := fun u => u.blind = [])
      (fun u a v hu hv => (inv_step hu hv).1) (fun u a v hu hv => (inv_step hu hv).2) hinv h]
  exact and_iff_right hblind

end

/-! ## A body that is cut short -/

/-- A counter, and two calls that add one to it. -/
def adding (_ : Bool) : Call ℕ := ⟨0, fun n => some (n.getD 0 + 1)⟩

def counter : Updates Bool ℕ where
  object :=
    { current := some (41, "\"a\"".toList)
      versions := [(41, "\"a\"".toList)]
      mem := by decide
      told := by decide }
  styles _ := none
  phase _ := .idle
  landed := []
  blind := []

/-- Both calls read; one puts, and the other is refused, reads again and puts. -/
def twoAdditions : List (UpdateAct Bool) :=
  [.start true, .start false, .read true .full, .read false .full, .forms true, .forms false,
    .put true (.accepts "\"b\"".toList), .put false .refuses, .put false .refuses,
    .read false .full, .forms false, .put false (.accepts "\"c\"".toList)]

theorem upheld_iff_meets_counter : ∃ t ∈ (updating adding id 8).run counter twoAdditions,
    t.object.current.map Prod.fst = some 43 ∧ (t.Upheld adding id counter ↔
      (updating adding id 8).Meets BodyRead counter twoAdditions) := by
  have hrun : ((updating adding id 8).run counter twoAdditions).map
      (·.object.current.map Prod.fst) = some (some 43) := by decide
  obtain ⟨t, ht, hsum⟩ := Option.map_eq_some_iff.1 hrun
  exact ⟨t, ht, hsum, upheld_iff_meets ⟨fun _ => rfl, rfl, rfl⟩ ht⟩

/-- The object is there, its body is cut short, and the call puts what it made of nothing. -/
theorem counted_from_nothing : (updating adding id 8).start counter ∧
    ∃ t ∈ (updating adding id 8).run counter
        [.start true, .read true .bodyFails, .forms true, .put true (.accepts "\"b\"".toList)],
      t.phase true = .returned 1 ∧ t.object.current.map Prod.fst = some 1 ∧
      ¬ t.Upheld adding id counter := by
  refine ⟨⟨fun _ => rfl, rfl, rfl⟩, ?_⟩
  have hrun : ((updating adding id 8).run counter
      [.start true, .read true .bodyFails, .forms true, .put true (.accepts "\"b\"".toList)]).map
        (fun t => (t.phase true, t.object.current.map Prod.fst, t.blind)) =
      some (.returned 1, some 1, [true]) := by decide
  obtain ⟨t, ht, hseen⟩ := Option.map_eq_some_iff.1 hrun
  simp only [Prod.mk.injEq] at hseen
  obtain ⟨hphase, hobject, hblind⟩ := hseen
  refine ⟨t, ht, hphase, hobject, fun hupheld => ?_⟩
  have hnil := hupheld.read
  rw [hblind] at hnil
  cases hnil

end ResidentCrm.Storage.Update
