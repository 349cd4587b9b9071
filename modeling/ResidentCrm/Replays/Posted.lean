import ResidentCrm.Replays.Approval
import Mathlib.Data.List.Nodup

/-!
# What is posted

However agents and sessions interleave, break off and fail to save: only what was nominated is
posted, and a document that is marked as replayed was posted and accepted as it stands
(`posts_sound`). `Move` says what a step can do; what follows about runs is read off its cases.
-/

namespace ResidentCrm.Replays

section

variable {ι : Type*} [DecidableEq ι]

/-- What a step does. -/
inductive Move (readLine : Text → Option (Text × Payload)) (s : State ι) :
    Action ι → State ι → Prop
  | notQueued {payload timestamp saved} : Move readLine s (.queue payload timestamp saved) s
  | queues {payload timestamp saved} : Move readLine s (.queue payload timestamp saved)
      ((s.setDocument payload.id.strip ⟨s.nominated.length, timestamp, payload, none⟩).nominate
        (.stored payload.id.strip) payload)
  | appends {line timestamp payload} (h : readLine line.strip = some (timestamp, payload)) :
      Move readLine s (.append line)
        { s.nominate (.line line.strip) payload with
          legacy := s.legacy ++ [(s.nominated.length, line)] }
  | starts {i filter approveAll keys} (hi : (s.sessions i).phase = .away) (h : keys.Nodup) :
      Move readLine s (.start i filter approveAll keys)
        (s.setSession i ⟨.loading keys [], filter, approveAll, []⟩)
  | loads {i got key keys entries} {found : Option Entry}
      (hi : (s.sessions i).phase = .loading (key :: keys) entries)
      (h : ∀ e ∈ found, entryOf s.documents key = some e) :
      Move readLine s (.load i got) (s.goto i (.loading keys (entries ++ found.toList)))
  | loadsLegacy {i got entries} (hi : (s.sessions i).phase = .loading [] entries) :
      Move readLine s (.load i got)
        (s.goto i (.asking (entries ++ loadLegacy readLine s.legacy)))
  | skips {i input accepted entry rest} (hi : (s.sessions i).phase = .asking (entry :: rest)) :
      Move readLine s (.answer i input accepted) (s.goto i (.asking rest))
  | fails {i input entry rest} (hi : (s.sessions i).phase = .asking (entry :: rest)) :
      Move readLine s (.answer i input false)
        ((s.post entry false).goto i (.asking rest))
  | posts {i input entry rest} (hi : (s.sessions i).phase = .asking (entry :: rest)) :
      Move readLine s (.answer i input true)
        ((s.post entry true).goto i (.resolving entry .replayed rest))
  | refuses {i input accepted entry rest} (hi : (s.sessions i).phase = .asking (entry :: rest)) :
      Move readLine s (.answer i input accepted)
        ((s.refuse entry).goto i (.resolving entry .discarded rest))
  | consumes {i saved entry outcome rest text}
      (hi : (s.sessions i).phase = .resolving entry outcome rest)
      (h : entry.origin = .line text) :
      Move readLine s (.resolve i saved) (s.setSession i { s.sessions i with
        phase := .asking rest, consumed := (s.sessions i).consumed ++ [text] })
  | marks {i entry outcome rest key} (hi : (s.sessions i).phase = .resolving entry outcome rest)
      (h : entry.origin = .stored key) :
      Move readLine s (.resolve i true)
        ((s.setDocument key
          ⟨entry.nomination, entry.timestamp, entry.payload, some outcome⟩).goto i (.asking rest))
  | unmarked {i entry rest} (hi : (s.sessions i).phase = .resolving entry .replayed rest) :
      Move readLine s (.resolve i false) (s.goto i (.asking rest))
  | dies {i entry outcome rest} (hi : (s.sessions i).phase = .resolving entry outcome rest) :
      Move readLine s (.resolve i false) (s.setSession i { phase := .away })
  | finishes {i} (hi : (s.sessions i).phase = .asking []) :
      Move readLine s (.finish i)
        { s.setSession i { phase := .away } with
          legacy := s.legacy.filter (·.2.strip ∉ (s.sessions i).consumed) }
  | crashes {i} : Move readLine s (.crash i) (s.setSession i { phase := .away })

variable {readLine : Text → Option (Text × Payload)} {s t : State ι} {a : Action ι}

theorem move_of_answer {i : ι} {input : Text} {accepted : Bool}
    (h : answer s i input accepted = some t) : Move readLine s (.answer i input accepted) t := by
  unfold answer at h
  split at h
  · next entry rest hi =>
    split at h
    · obtain rfl := Option.some.inj h
      exact .skips hi
    · split at h
      · obtain rfl := Option.some.inj h
        cases accepted with
        | false => exact .fails hi
        | true => exact .posts hi
      · split at h
        · obtain rfl := Option.some.inj h
          exact .refuses hi
        · obtain rfl := Option.some.inj h
          exact .skips hi
  · cases h

theorem move_of_resolve {i : ι} {saved : Bool} (h : resolve s i saved = some t) :
    Move readLine s (.resolve i saved) t := by
  unfold resolve at h
  split at h
  · next entry outcome rest hi =>
    split at h
    · next text horigin =>
      obtain rfl := Option.some.inj h
      exact .consumes hi horigin
    · next key horigin =>
      cases saved with
      | true =>
        obtain rfl := Option.some.inj h
        exact .marks hi horigin
      | false =>
        rw [if_neg Bool.false_ne_true] at h
        split at h
        · next houtcome =>
          obtain rfl := Option.some.inj h
          exact .unmarked (houtcome ▸ hi)
        · obtain rfl := Option.some.inj h
          exact .dies hi
  · cases h

/-- Every step is one of the moves. -/
theorem move_of_step (h : step readLine s a = some t) : Move readLine s a t := by
  cases a with
  | queue payload timestamp saved =>
    obtain rfl := Option.some.inj h
    unfold queue
    split
    · exact .queues
    · exact .notQueued
  | append line =>
    obtain ⟨⟨timestamp, payload⟩, hline, rfl⟩ := Option.map_eq_some_iff.1 h
    exact .appends hline
  | start i filter approveAll keys =>
    simp only [step] at h
    split at h
    · next hi =>
      obtain rfl := Option.some.inj h
      exact .starts hi.1 hi.2
    · cases h
  | load i got =>
    simp only [step] at h
    split at h
    · next key keys entries hi =>
      obtain rfl := Option.some.inj h
      refine .loads hi fun e he => ?_
      split at he
      · exact he
      · cases he
    · next entries hi =>
      obtain rfl := Option.some.inj h
      exact .loadsLegacy hi
    · cases h
  | answer i input accepted => exact move_of_answer h
  | resolve i saved => exact move_of_resolve h
  | finish i =>
    simp only [step] at h
    split at h
    · next hi =>
      obtain rfl := Option.some.inj h
      exact .finishes hi
    · cases h
  | crash i =>
    obtain rfl := Option.some.inj h
    exact .crashes

/-! ## Only what was nominated -/

/-- What happened to a nomination with an outcome. -/
def Marked (s : State ι) (nomination : ℕ) (payload : Payload) : Option Outcome → Prop
  | none => True
  | some .replayed => ⟨nomination, payload, true⟩ ∈ s.posts
  | some .discarded => nomination ∈ s.refused

def Named (s : State ι) (nomination : ℕ) (origin : Origin) (payload : Payload) : Prop :=
  s.nominated[nomination]? = some (origin, payload)

omit [DecidableEq ι] in
theorem lt_of_named {nomination : ℕ} {origin : Origin} {payload : Payload}
    (h : Named s nomination origin payload) : nomination < s.nominated.length :=
  (List.getElem?_eq_some_iff.1 h).1

omit [DecidableEq ι] in
/-- Two that are one nomination come from one place. -/
theorem origin_unique {nomination : ℕ} {origin origin' : Origin} {payload payload' : Payload}
    (h : Named s nomination origin payload) (h' : Named s nomination origin' payload') :
    origin = origin' :=
  (Prod.mk.inj (Option.some.inj (h.symm.trans h'))).1

/-- What a session has in its list and in hand was nominated, and what is in hand was decided. -/
structure SessionOk (s : State ι) (phase : Phase) : Prop where
  entries : ∀ e ∈ phase.entries, Named s e.nomination e.origin e.payload
  inHand : ∀ x ∈ phase.inHand, Named s x.1.nomination x.1.origin x.1.payload ∧
    Marked s x.1.nomination x.1.payload (some x.2)

structure Sound (readLine : Text → Option (Text × Payload)) (s : State ι) : Prop where
  documents : ∀ key d, s.documents key = some d →
    Named s d.nomination (.stored key) d.payload ∧ Marked s d.nomination d.payload d.outcome
  legacy : ∀ l ∈ s.legacy, ∃ timestamp payload, readLine l.2.strip = some (timestamp, payload) ∧
    Named s l.1 (.line l.2.strip) payload
  sessions : ∀ i, SessionOk s (s.sessions i).phase
  posts : ∀ post ∈ s.posts, ∃ origin, Named s post.nomination origin post.payload

/-- Nothing that was nominated, posted or refused is forgotten. -/
structure Grows (s t : State ι) : Prop where
  nominated : s.nominated <+: t.nominated
  posts : s.posts ⊆ t.posts
  refused : s.refused ⊆ t.refused

omit [DecidableEq ι] in
theorem Grows.named {nomination : ℕ} {origin : Origin} {payload : Payload} (h : Grows s t)
    (hnamed : Named s nomination origin payload) : Named t nomination origin payload := by
  obtain ⟨more, hmore⟩ := h.nominated
  obtain ⟨hlt, -⟩ := List.getElem?_eq_some_iff.1 hnamed
  rw [Named, ← hmore, List.getElem?_append_left hlt]
  exact hnamed

omit [DecidableEq ι] in
theorem Grows.marked {nomination : ℕ} {payload : Payload} {outcome : Option Outcome}
    (h : Grows s t) (hmarked : Marked s nomination payload outcome) :
    Marked t nomination payload outcome := by
  cases outcome with
  | none => trivial
  | some outcome =>
    cases outcome with
    | replayed => exact h.posts hmarked
    | discarded => exact h.refused hmarked

omit [DecidableEq ι] in
theorem Grows.sessionOk {phase : Phase} (h : Grows s t) (hphase : SessionOk s phase) :
    SessionOk t phase :=
  ⟨fun e he => h.named (hphase.entries e he),
    fun x hx => ⟨h.named (hphase.inHand x hx).1, h.marked (hphase.inHand x hx).2⟩⟩

theorem Move.grows (h : Move readLine s a t) : Grows s t := by
  have hsame : ∀ t : State ι, t.nominated = s.nominated → t.posts = s.posts →
      t.refused = s.refused → Grows s t := by
    intro t hnominated hposts hrefused
    refine ⟨?_, ?_, ?_⟩
    · rw [hnominated]
    · rw [hposts]
      exact List.Subset.refl _
    · rw [hrefused]
      exact List.Subset.refl _
  cases h with
  | queues | appends =>
    exact ⟨List.prefix_append _ _, List.Subset.refl _, List.Subset.refl _⟩
  | fails | posts =>
    exact ⟨List.prefix_rfl, List.subset_append_left _ _, List.Subset.refl _⟩
  | refuses => exact ⟨List.prefix_rfl, List.Subset.refl _, List.subset_append_left _ _⟩
  | _ => exact hsame _ rfl rfl rfl

/-- The sessions that do not move keep what they have. -/
theorem Sound.sessions_update {i : ι} {session : Session} (h : Sound readLine s) (hgrows : Grows s t)
    (hsessions : t.sessions = Function.update s.sessions i session)
    (hi : SessionOk t session.phase) : ∀ j, SessionOk t (t.sessions j).phase := by
  intro j
  rw [hsessions]
  by_cases hj : j = i
  · subst hj
    rw [Function.update_self]
    exact hi
  · rw [Function.update_of_ne hj]
    exact hgrows.sessionOk (h.sessions j)

/-- A step that changes nothing but a session. -/
theorem Sound.frame {i : ι} {session : Session} (h : Sound readLine s) (hgrows : Grows s t)
    (hdocuments : t.documents = s.documents) (hlegacy : t.legacy ⊆ s.legacy)
    (hsessions : t.sessions = Function.update s.sessions i session)
    (hi : SessionOk t session.phase)
    (hposts : ∀ post ∈ t.posts, ∃ origin, Named t post.nomination origin post.payload) :
    Sound readLine t := by
  refine ⟨fun key d hd => ?_, fun l hl => ?_, h.sessions_update hgrows hsessions hi, hposts⟩
  · rw [hdocuments] at hd
    obtain ⟨hnamed, hmarked⟩ := h.documents key d hd
    exact ⟨hgrows.named hnamed, hgrows.marked hmarked⟩
  · obtain ⟨timestamp, payload, hline, hnamed⟩ := h.legacy l (hlegacy hl)
    exact ⟨timestamp, payload, hline, hgrows.named hnamed⟩

omit [DecidableEq ι] in
theorem named_last (s : State ι) (origin : Origin) (payload : Payload)
    (h : t.nominated = s.nominated ++ [(origin, payload)]) :
    Named t s.nominated.length origin payload := by
  rw [Named, h, List.getElem?_append_right (Nat.le_refl _), Nat.sub_self]
  rfl

omit [DecidableEq ι] in
/-- What is read from a document. -/
theorem named_of_entryOf (h : Sound readLine s) {key : Text} {e : Entry}
    (he : entryOf s.documents key = some e) : Named s e.nomination e.origin e.payload := by
  obtain ⟨d, hd, rfl⟩ := Option.map_eq_some_iff.1 he
  exact (h.documents key d (Option.filter_eq_some_iff.1 hd).1).1

theorem mem_loadLegacy {legacy : List (ℕ × Text)} {e : Entry} :
    e ∈ loadLegacy readLine legacy ↔ ∃ l ∈ legacy, ∃ timestamp payload,
      readLine l.2.strip = some (timestamp, payload) ∧
        e = ⟨l.1, timestamp, payload, .line l.2.strip⟩ := by
  unfold loadLegacy
  rw [List.mem_filterMap]
  constructor
  · rintro ⟨l, hl, he⟩
    obtain ⟨⟨timestamp, payload⟩, hline, rfl⟩ := Option.map_eq_some_iff.1 he
    exact ⟨l, hl, timestamp, payload, hline, rfl⟩
  · rintro ⟨l, hl, timestamp, payload, hline, rfl⟩
    exact ⟨l, hl, Option.map_eq_some_iff.2 ⟨(timestamp, payload), hline, rfl⟩⟩

theorem Sound.move (h : Sound readLine s) (hmove : Move readLine s a t) : Sound readLine t := by
  have hgrows := hmove.grows
  have hposts : t.posts = s.posts →
      ∀ post ∈ t.posts, ∃ origin, Named t post.nomination origin post.payload := by
    intro hsame post hpost
    rw [hsame] at hpost
    obtain ⟨origin, hnamed⟩ := h.posts post hpost
    exact ⟨origin, hgrows.named hnamed⟩
  cases hmove with
  | notQueued => exact h
  | @queues payload timestamp saved =>
    refine ⟨fun key d hd => ?_, fun l hl => ?_, fun j => hgrows.sessionOk (h.sessions j), hposts rfl⟩
    · by_cases hkey : key = payload.id.strip
      · subst hkey
        simp only [State.nominate, State.setDocument, Function.update_self] at hd
        obtain rfl := Option.some.inj hd
        exact ⟨named_last s _ _ rfl, trivial⟩
      · simp only [State.nominate, State.setDocument, Function.update_of_ne hkey] at hd
        obtain ⟨hnamed, hmarked⟩ := h.documents key d hd
        exact ⟨hgrows.named hnamed, hgrows.marked hmarked⟩
    · obtain ⟨timestamp, payload, hline, hnamed⟩ := h.legacy l hl
      exact ⟨timestamp, payload, hline, hgrows.named hnamed⟩
  | @appends line timestamp payload hline =>
    refine ⟨fun key d hd => ?_, fun l hl => ?_, fun j => hgrows.sessionOk (h.sessions j), hposts rfl⟩
    · obtain ⟨hnamed, hmarked⟩ := h.documents key d hd
      exact ⟨hgrows.named hnamed, hgrows.marked hmarked⟩
    · rcases List.mem_append.1 hl with hl | hl
      · obtain ⟨timestamp, payload, hline, hnamed⟩ := h.legacy l hl
        exact ⟨timestamp, payload, hline, hgrows.named hnamed⟩
      · obtain rfl := List.mem_singleton.1 hl
        exact ⟨timestamp, payload, hline, named_last s _ _ rfl⟩
  | starts hi hkeys =>
    exact h.frame hgrows rfl (List.Subset.refl _) rfl
      ⟨fun e he => absurd he List.not_mem_nil, fun x hx => absurd hx List.not_mem_nil⟩ (hposts rfl)
  | @loads i got key keys entries found hi hfound =>
    refine h.frame hgrows rfl (List.Subset.refl _) rfl
      ⟨fun e he => ?_, fun x hx => absurd hx List.not_mem_nil⟩ (hposts rfl)
    have hold := (h.sessions i).entries
    rw [hi] at hold
    rcases List.mem_append.1 he with he | he
    · exact hgrows.named (hold e he)
    · exact hgrows.named (named_of_entryOf h (hfound e (Option.mem_toList.1 he)))
  | @loadsLegacy i got entries hi =>
    refine h.frame hgrows rfl (List.Subset.refl _) rfl
      ⟨fun e he => ?_, fun x hx => absurd hx List.not_mem_nil⟩ (hposts rfl)
    have hold := (h.sessions i).entries
    rw [hi] at hold
    rcases List.mem_append.1 he with he | he
    · exact hgrows.named (hold e he)
    · obtain ⟨l, hl, timestamp, payload, hline, rfl⟩ := mem_loadLegacy.1 he
      obtain ⟨timestamp', payload', hline', hnamed⟩ := h.legacy l hl
      obtain ⟨-, rfl⟩ := Prod.mk.inj (Option.some.inj (hline.symm.trans hline'))
      exact hgrows.named hnamed
  | @skips i input accepted entry rest hi =>
    have hold := (h.sessions i).entries
    rw [hi] at hold
    exact h.frame hgrows rfl (List.Subset.refl _) rfl
      ⟨fun e he => hgrows.named (hold e (List.mem_cons_of_mem _ he)),
        fun x hx => absurd hx List.not_mem_nil⟩ (hposts rfl)
  | @fails i input entry rest hi =>
    have hold := (h.sessions i).entries
    rw [hi] at hold
    refine h.frame hgrows rfl (List.Subset.refl _) rfl
      ⟨fun e he => hgrows.named (hold e (List.mem_cons_of_mem _ he)),
        fun x hx => absurd hx List.not_mem_nil⟩ fun post hpost => ?_
    rcases List.mem_append.1 hpost with hpost | hpost
    · obtain ⟨origin, hnamed⟩ := h.posts post hpost
      exact ⟨origin, hgrows.named hnamed⟩
    · obtain rfl := List.mem_singleton.1 hpost
      exact ⟨entry.origin, hgrows.named (hold entry List.mem_cons_self)⟩
  | @posts i input entry rest hi =>
    have hold := (h.sessions i).entries
    rw [hi] at hold
    refine h.frame hgrows rfl (List.Subset.refl _) rfl
      ⟨fun e he => hgrows.named (hold e (List.mem_cons_of_mem _ he)), fun x hx => ?_⟩
      fun post hpost => ?_
    · obtain rfl := List.mem_singleton.1 hx
      exact ⟨hgrows.named (hold entry List.mem_cons_self),
        List.mem_append_right _ (List.mem_singleton.2 rfl)⟩
    · rcases List.mem_append.1 hpost with hpost | hpost
      · obtain ⟨origin, hnamed⟩ := h.posts post hpost
        exact ⟨origin, hgrows.named hnamed⟩
      · obtain rfl := List.mem_singleton.1 hpost
        exact ⟨entry.origin, hgrows.named (hold entry List.mem_cons_self)⟩
  | @refuses i input accepted entry rest hi =>
    have hold := (h.sessions i).entries
    rw [hi] at hold
    refine h.frame hgrows rfl (List.Subset.refl _) rfl
      ⟨fun e he => hgrows.named (hold e (List.mem_cons_of_mem _ he)), fun x hx => ?_⟩ (hposts rfl)
    obtain rfl := List.mem_singleton.1 hx
    exact ⟨hgrows.named (hold entry List.mem_cons_self),
      List.mem_append_right _ (List.mem_singleton.2 rfl)⟩
  | @consumes i saved entry outcome rest text hi horigin =>
    have hold := (h.sessions i).entries
    rw [hi] at hold
    exact h.frame hgrows rfl (List.Subset.refl _) rfl
      ⟨fun e he => hgrows.named (hold e he), fun x hx => absurd hx List.not_mem_nil⟩ (hposts rfl)
  | @marks i entry outcome rest key hi horigin =>
    have hold := h.sessions i
    rw [hi] at hold
    refine ⟨fun key' d hd => ?_, fun l hl => ?_,
      h.sessions_update hgrows rfl ⟨fun e he => hgrows.named (hold.entries e he),
        fun x hx => absurd hx List.not_mem_nil⟩, hposts rfl⟩
    · by_cases hkey : key' = key
      · subst hkey
        simp only [State.goto, State.setSession, State.setDocument, Function.update_self] at hd
        obtain rfl := Option.some.inj hd
        obtain ⟨hnamed, hmarked⟩ := hold.inHand (entry, outcome) (List.mem_singleton.2 rfl)
        rw [horigin] at hnamed
        exact ⟨hgrows.named hnamed, hgrows.marked hmarked⟩
      · simp only [State.goto, State.setSession, State.setDocument,
          Function.update_of_ne hkey] at hd
        obtain ⟨hnamed, hmarked⟩ := h.documents key' d hd
        exact ⟨hgrows.named hnamed, hgrows.marked hmarked⟩
    · obtain ⟨timestamp, payload, hline, hnamed⟩ := h.legacy l hl
      exact ⟨timestamp, payload, hline, hgrows.named hnamed⟩
  | @unmarked i entry rest hi =>
    have hold := (h.sessions i).entries
    rw [hi] at hold
    exact h.frame hgrows rfl (List.Subset.refl _) rfl
      ⟨fun e he => hgrows.named (hold e he), fun x hx => absurd hx List.not_mem_nil⟩ (hposts rfl)
  | finishes hi =>
    exact h.frame hgrows rfl (List.filter_subset_self _) rfl
      ⟨fun e he => absurd he List.not_mem_nil, fun x hx => absurd hx List.not_mem_nil⟩ (hposts rfl)
  | dies | crashes =>
    exact h.frame hgrows rfl (List.Subset.refl _) rfl
      ⟨fun e he => absurd he List.not_mem_nil, fun x hx => absurd hx List.not_mem_nil⟩ (hposts rfl)

omit [DecidableEq ι] in
theorem AtStart.sound (h : AtStart s) : Sound readLine s := by
  obtain ⟨hdocuments, hlegacy, hsessions, -, hposts, -⟩ := h
  refine ⟨fun key d hd => ?_, fun l hl => ?_, fun i => ?_, fun post hpost => ?_⟩
  · rw [hdocuments] at hd
    cases hd
  · rw [hlegacy] at hl
    cases hl
  · rw [hsessions i]
    exact ⟨fun e he => absurd he List.not_mem_nil, fun x hx => absurd hx List.not_mem_nil⟩
  · rw [hposts] at hpost
    cases hpost

theorem sound (hs : (approvals readLine : Machine (State ι) (Action ι)).Reachable s) :
    Sound readLine s :=
  hs.invariant (fun _ => AtStart.sound) fun _ _ _ h _ ht => h.move (move_of_step ht)

/-- **Only what was nominated is posted, and a mark says what happened.** A document always holds a
nomination of its packet; marked as replayed it was posted as it stands and accepted, marked as
discarded it was refused. -/
theorem posts_sound (hs : (approvals readLine : Machine (State ι) (Action ι)).Reachable s) :
    (∀ post ∈ s.posts, ∃ origin, Named s post.nomination origin post.payload) ∧
    ∀ key d, s.documents key = some d → Named s d.nomination (.stored key) d.payload ∧
      (d.outcome = some .replayed → ⟨d.nomination, d.payload, true⟩ ∈ s.posts) ∧
      (d.outcome = some .discarded → d.nomination ∈ s.refused) := by
  have h := sound hs
  refine ⟨h.posts, fun key d hd => ?_⟩
  obtain ⟨hnamed, hmarked⟩ := h.documents key d hd
  refine ⟨hnamed, fun houtcome => ?_, fun houtcome => ?_⟩
  · rw [houtcome] at hmarked
    exact hmarked
  · rw [houtcome] at hmarked
    exact hmarked

end

/-- Nothing is nominated yet, and there are two operators. -/
def noneNominated : State Bool where
  documents _ := none
  legacy := []
  sessions _ := { phase := .away }
  nominated := []
  posts := []
  refused := []

theorem noneNominated_start : AtStart noneNominated :=
  ⟨fun _ => rfl, rfl, fun _ => rfl, rfl, rfl, rfl⟩

def onePayload : Payload where
  id := "REF1".toList
  idType := "refId".toList
  priority := 1
  operatorName := "agent".toList
  category := "TRANSIENT".toList
  fromSedaStart := true

/-- The old queue has no lines that are read. -/
def noLines (_ : Text) : Option (Text × Payload) := none

/-- A packet is nominated, listed and approved by the operator `i`. -/
def approvedBy (i : Bool) : List (Action Bool) :=
  [.queue onePayload "T".toList true, .start i [] false ["REF1".toList], .load i true,
    .load i true, .answer i " Y ".toList true, .resolve i true]

/-- A packet that is approved. -/
theorem approved_posted : ∃ s : State Bool, (approvals noLines).Reachable s ∧
    s.posts = [⟨0, onePayload, true⟩] ∧
    ∃ d, s.documents "REF1".toList = some d ∧ d.outcome = some .replayed ∧
      ⟨d.nomination, d.payload, true⟩ ∈ s.posts := by
  obtain ⟨s, hs, hp⟩ := (approvals noLines).exists_reachable_run noneNominated_start
    (approvedBy true) (fun s => s.posts = [⟨0, onePayload, true⟩] ∧
      (s.documents "REF1".toList).any (·.outcome = some .replayed)) (by decide)
  obtain ⟨hposts, hd⟩ := of_decide_eq_true hp
  obtain ⟨d, hd, houtcome⟩ := (Option.any_eq_true _ _).1 hd
  have houtcome := of_decide_eq_true houtcome
  exact ⟨s, hs, hposts, d, hd, houtcome, ((posts_sound hs).2 _ d hd).2.1 houtcome⟩

end ResidentCrm.Replays
