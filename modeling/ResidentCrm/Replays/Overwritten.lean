import ResidentCrm.Replays.Posted

/-!
# A later nomination of a packet

A packet that is nominated again gets a new document in place of the old one, and `_resolve` saves
the entry it read when the session began: it overwrites a nomination that came since. The document
of a packet stays the one of its latest nomination exactly where no session marks a document that
changed since it was read (`latest_kept_iff`).
-/

namespace ResidentCrm.Replays

/-- The document of an entry is still of its nomination. -/
def Entry.Stands (documents : Text → Option Document) (entry : Entry) : Prop :=
  match entry.origin with
  | .line _ => True
  | .stored key => (documents key).map (·.nomination) = some entry.nomination

section

variable {ι : Type*}

/-- A document is marked only where it is as it was read. -/
def MarksWhatItRead (s : State ι) : Action ι → Prop
  | .resolve i saved => saved = true → ∀ x ∈ (s.sessions i).phase.inHand, x.1.Stands s.documents
  | _ => True

/-- The latest nomination of a packet. -/
def Latest (s : State ι) (key : Text) (nomination : ℕ) (payload : Payload) : Prop :=
  Named s nomination (.stored key) payload ∧
    ∀ m payload', Named s m (.stored key) payload' → m ≤ nomination

/-- The document of every packet is of its latest nomination. -/
def Current (s : State ι) : Prop :=
  ∀ key nomination payload, Latest s key nomination payload →
    ∃ d, s.documents key = some d ∧ d.nomination = nomination ∧ d.payload = payload

variable {readLine : Text → Option (Text × Payload)} {s t : State ι} {a : Action ι} {i : ι}

theorem current_congr (hdocuments : t.documents = s.documents)
    (hnominated : t.nominated = s.nominated) : Current t ↔ Current s := by
  simp only [Current, Latest, Named, hdocuments, hnominated]

/-- Every packet that was nominated has a latest nomination. -/
theorem exists_latest {key : Text} {nomination : ℕ} {payload : Payload}
    (h : Named s nomination (.stored key) payload) : ∃ m payload', Latest s key m payload' := by
  have hfind : ∀ k, ∀ n payload, Named s n (.stored key) payload → s.nominated.length ≤ n + k →
      ∃ m payload', Latest s key m payload' := by
    intro k
    induction k with
    | zero =>
      intro n payload hn hle
      have hlt := lt_of_named hn
      omega
    | succ k ih =>
      intro n payload hn hle
      by_cases hlatest : ∀ m payload', Named s m (.stored key) payload' → m ≤ n
      · exact ⟨n, payload, hn, hlatest⟩
      · push Not at hlatest
        obtain ⟨m, payload', hm, hlt⟩ := hlatest
        exact ih m payload' hm (by omega)
  exact hfind s.nominated.length nomination payload h (by omega)

/-- A document that is there is of the latest nomination. -/
theorem Current.latest (hsound : Sound readLine s) (h : Current s) {key : Text} {d : Document}
    (hd : s.documents key = some d) : Latest s key d.nomination d.payload := by
  have hnamed := (hsound.documents key d hd).1
  obtain ⟨m, payload, hm⟩ := exists_latest hnamed
  obtain ⟨d', hd', hnomination, hpayload⟩ := h key m payload hm
  obtain rfl := Option.some.inj (hd.symm.trans hd')
  rw [hnomination, hpayload]
  exact hm

/-- A packet that was nominated has a document. -/
theorem Current.exists_document (h : Current s) {key : Text} {nomination : ℕ} {payload : Payload}
    (hnamed : Named s nomination (.stored key) payload) : ∃ d, s.documents key = some d := by
  obtain ⟨m, payload', hm⟩ := exists_latest hnamed
  obtain ⟨d, hd, -, -⟩ := h key m payload' hm
  exact ⟨d, hd⟩

/-- What comes before a new nomination. -/
theorem named_of_nominate {origin origin' : Origin} {payload payload' : Payload} {m : ℕ}
    (hnominated : t.nominated = s.nominated ++ [(origin, payload)])
    (h : Named t m origin' payload') :
    Named s m origin' payload' ∨ m = s.nominated.length ∧ origin' = origin ∧
      payload' = payload := by
  rw [Named, hnominated] at h
  by_cases hm : m < s.nominated.length
  · rw [List.getElem?_append_left hm] at h
    exact .inl h
  · rw [List.getElem?_append_right (by omega)] at h
    obtain ⟨hone, hpair⟩ := List.getElem?_eq_some_iff.1 h
    have hm : m = s.nominated.length := by
      have hlt : m - s.nominated.length < 1 := hone
      omega
    subst hm
    have hlast : (origin, payload) = (origin', payload') := by
      rw [← hpair]
      simp
    obtain ⟨rfl, rfl⟩ := Prod.mk.inj hlast
    exact .inr ⟨rfl, rfl, rfl⟩

/-- Where nothing but another place is nominated, the latest nomination is as before. -/
theorem latest_of_nominate {key : Text} {origin : Origin} {payload payload' : Payload} {m : ℕ}
    (hnominated : t.nominated = s.nominated ++ [(origin, payload)]) (horigin : .stored key ≠ origin)
    (h : Latest t key m payload') : Latest s key m payload' := by
  have hgrow : ∀ m payload', Named s m (.stored key) payload' →
      Named t m (.stored key) payload' := by
    intro m payload' hm
    rw [Named, hnominated, List.getElem?_append_left (lt_of_named hm)]
    exact hm
  obtain ⟨hm, hlatest⟩ := h
  rcases named_of_nominate hnominated hm with hm | ⟨-, hsame, -⟩
  · exact ⟨hm, fun n payload'' hn => hlatest n payload'' (hgrow n payload'' hn)⟩
  · exact absurd hsame horigin

variable [DecidableEq ι]

/-- A mark keeps the document the latest exactly where it changes nothing but the outcome. -/
theorem current_marks {entry : Entry} {outcome : Outcome} {rest : List Entry} {key : Text}
    (hsound : Sound readLine s) (h : Current s)
    (hi : (s.sessions i).phase = .resolving entry outcome rest)
    (horigin : entry.origin = .stored key) :
    Current ((s.setDocument key
      ⟨entry.nomination, entry.timestamp, entry.payload, some outcome⟩).goto i (.asking rest)) ↔
      entry.Stands s.documents := by
  have hnamed := ((hsound.sessions i).inHand (entry, outcome) (by
    rw [hi]
    exact List.mem_singleton.2 rfl)).1
  rw [horigin] at hnamed
  obtain ⟨d, hd⟩ := h.exists_document hnamed
  have hlatest := h.latest hsound hd
  have hstands : entry.Stands s.documents ↔ d.nomination = entry.nomination := by
    simp only [Entry.Stands, horigin, hd, Option.map_some, Option.some.injEq]
  rw [hstands]
  constructor
  · intro hcurrent
    obtain ⟨d', hd', hnomination, -⟩ := hcurrent key d.nomination d.payload hlatest
    simp only [State.goto, State.setSession, State.setDocument, Function.update_self] at hd'
    obtain rfl := Option.some.inj hd'
    exact hnomination.symm
  · intro hsame key' n payload hn
    by_cases hkey : key' = key
    · subst hkey
      refine ⟨_, Function.update_self .., ?_, ?_⟩
      · obtain ⟨d', hd', hnomination, -⟩ := h key' n payload hn
        obtain rfl := Option.some.inj (hd.symm.trans hd')
        exact hsame.symm.trans hnomination
      · obtain ⟨d', hd', hnomination, hpayload⟩ := h key' n payload hn
        obtain rfl := Option.some.inj (hd.symm.trans hd')
        have hd := (hsound.documents key' d hd).1
        rw [hsame] at hd
        rw [← hpayload]
        exact (Prod.mk.inj (Option.some.inj (hnamed.symm.trans hd))).2
    · obtain ⟨d', hd', hrest⟩ := h key' n payload hn
      refine ⟨d', ?_, hrest⟩
      simp only [State.goto, State.setSession, State.setDocument, Function.update_of_ne hkey]
      exact hd'

theorem current_move (hsound : Sound readLine s) (h : Current s) (hmove : Move readLine s a t) :
    Current t ↔ MarksWhatItRead s a := by
  cases hmove with
  | notQueued => exact iff_of_true h trivial
  | @queues payload timestamp saved =>
    refine iff_of_true (fun key n payload' hn => ?_) trivial
    by_cases hkey : key = payload.id.strip
    · subst hkey
      refine ⟨_, Function.update_self .., ?_⟩
      rcases named_of_nominate (s := s) rfl hn.1 with hold | ⟨hm, -, hpayload⟩
      · have hle := hn.2 _ _ (named_last s _ _ rfl)
        have hlt := lt_of_named hold
        omega
      · exact ⟨hm.symm, hpayload.symm⟩
    · have hne : Origin.stored key ≠ .stored payload.id.strip :=
        fun hsame => hkey (Origin.stored.inj hsame)
      obtain ⟨d, hd, hrest⟩ := h key n payload' (latest_of_nominate rfl hne hn)
      refine ⟨d, ?_, hrest⟩
      simp only [State.nominate, State.setDocument, Function.update_of_ne hkey]
      exact hd
  | @appends line timestamp payload hline =>
    refine iff_of_true (fun key n payload' hn => ?_) trivial
    exact h key n payload' (latest_of_nominate rfl (by simp) hn)
  | @consumes i saved entry outcome rest text hi horigin =>
    refine iff_of_true ((current_congr rfl rfl).2 h) fun _ x hx => ?_
    rw [hi] at hx
    obtain rfl := List.mem_singleton.1 hx
    simp only [Entry.Stands, horigin]
  | @marks i entry outcome rest key hi horigin =>
    rw [current_marks hsound h hi horigin, MarksWhatItRead, hi]
    simp only [Phase.inHand, List.mem_singleton, forall_eq, true_imp_iff]
  | unmarked | dies =>
    exact iff_of_true ((current_congr rfl rfl).2 h) fun hsaved => absurd hsaved Bool.false_ne_true
  | starts | loads | loadsLegacy | skips | fails | posts | refuses | finishes | crashes =>
    exact iff_of_true ((current_congr rfl rfl).2 h) trivial

omit [DecidableEq ι] in
theorem AtStart.current (h : AtStart s) : Current s := by
  obtain ⟨-, -, -, hnominated, -, -⟩ := h
  intro key n payload hn
  have hnamed := hn.1
  rw [Named, hnominated] at hnamed
  cases hnamed

/-- **In every state of a run the document of each packet is of its latest nomination exactly where
no document is marked that was nominated again since it was read.** -/
theorem latest_kept_iff {actions : List (Action ι)} (hs : AtStart s)
    (ht : (approvals readLine).run s actions = some t) :
    (approvals readLine).Always Current s actions ↔
      (approvals readLine).Meets MarksWhatItRead s actions :=
  Machine.always_iff_meets (I := Sound readLine)
    (fun _ _ _ h _ _ ht => h.move (move_of_step ht))
    (fun _ _ _ h hcurrent ht => current_move h hcurrent (move_of_step ht)) hs.sound hs.current ht

end

instance (documents : Text → Option Document) : DecidablePred (Entry.Stands documents)
  | ⟨_, _, _, .line _⟩ => isTrue trivial
  | ⟨_, _, _, .stored _⟩ => inferInstanceAs (Decidable (_ = _))

instance (s : State Bool) : (a : Action Bool) → Decidable (MarksWhatItRead s a)
  | .resolve _ saved => inferInstanceAs (Decidable (saved = true → ∀ _ ∈ _, _))
  | .queue _ _ _ | .append _ | .start _ _ _ _ | .load _ _ | .answer _ _ _ | .finish _ |
    .crash _ => isTrue trivial

/-- The packet is nominated again while an operator decides on it. -/
def nominatedAgain : List (Action Bool) :=
  [.queue onePayload "T".toList true, .start true [] false ["REF1".toList], .load true true,
    .load true true, .answer true "n".toList true,
    .queue { onePayload with category := "FIXED".toList } "U".toList true, .resolve true true]

/-- The second nomination is discarded with the first. -/
theorem second_nomination_lost :
    ((approvals noLines).run noneNominated nominatedAgain).isSome ∧
    ¬ (approvals noLines).Always Current noneNominated nominatedAgain := by
  have hrun : ((approvals noLines).run noneNominated nominatedAgain).isSome := by decide
  obtain ⟨t, ht⟩ := Option.isSome_iff_exists.1 hrun
  refine ⟨hrun, fun halways => ?_⟩
  have hmeets := (latest_kept_iff noneNominated_start ht).1 halways
  have hnot : ¬ (approvals noLines).Meets MarksWhatItRead noneNominated nominatedAgain := by decide
  exact hnot hmeets

end ResidentCrm.Replays
