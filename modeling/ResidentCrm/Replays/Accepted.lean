import ResidentCrm.Replays.Posted

/-!
# A nomination is accepted once

`approve_replays` takes no lock over what is pending: two sessions list the same documents, and one
that ends between a post and its mark leaves the document pending. Where sessions take turns and
none is lost between an accepted post and its mark, the endpoint accepts a nomination once, and no
operator is asked about it again (`accepted_once`). For a line of the old queue the mark is the
rewrite of the file at the end of the session.
-/

namespace ResidentCrm.Replays

section

variable {ι : Type*}

/-- Sessions take turns, and what was accepted is marked. -/
def Orderly (s : State ι) : Action ι → Prop
  | .start _ _ _ _ => ∀ i, (s.sessions i).phase = .away
  | .resolve _ saved => saved = true
  | .crash i => (s.sessions i).consumed = [] ∧
      ∀ x ∈ (s.sessions i).phase.inHand, x.2 = .discarded
  | _ => True

/-- The nominations that the endpoint accepted. -/
def State.accepted (s : State ι) : List ℕ :=
  (s.posts.filter (·.accepted)).map (·.nomination)

/-- A session is about to mark a nomination as replayed. -/
def Session.Marks (session : Session) (nomination : ℕ) : Prop :=
  ∃ x ∈ session.phase.inHand, x.1.nomination = nomination ∧ x.2 = .replayed

/-- What a session goes through was not accepted, and it has nothing twice. -/
structure SessionOnce (accepted : List ℕ) (session : Session) : Prop where
  away : session.phase = .away → session.consumed = []
  undecided : ∀ e ∈ session.phase.entries, e.nomination ∉ accepted
  distinct : (session.phase.entries.map (·.nomination)).Nodup
  loading : ∀ keys entries, session.phase = .loading keys entries →
    keys.Nodup ∧ session.consumed = [] ∧ ∀ e ∈ entries, ∃ key, e.origin = .stored key ∧ key ∉ keys

/-- Of what was accepted, only what a session is about to mark is still pending. -/
structure Once (s : State ι) : Prop where
  nodup : s.accepted.Nodup
  one : ∀ i j, (s.sessions i).phase ≠ .away → (s.sessions j).phase ≠ .away → j = i
  sessions : ∀ i, SessionOnce s.accepted (s.sessions i)
  pending : ∀ key d, s.documents key = some d → d.outcome = none → d.nomination ∈ s.accepted →
    ∃ i, (s.sessions i).Marks d.nomination
  lines : ∀ l ∈ s.legacy, l.1 ∈ s.accepted →
    ∃ i, (s.sessions i).Marks l.1 ∨ l.2.strip ∈ (s.sessions i).consumed
  distinct : (s.legacy.map (·.1)).Nodup

variable {readLine : Text → Option (Text × Payload)} {s t : State ι} {a : Action ι} {i : ι}

theorem not_marks {session : Session} (h : session.phase.inHand = []) (nomination : ℕ) :
    ¬ session.Marks nomination := by
  intro hmarks
  obtain ⟨x, hx, -⟩ := hmarks
  rw [h] at hx
  cases hx

theorem not_away_of_marks {session : Session} {nomination : ℕ} (h : session.Marks nomination) :
    session.phase ≠ .away := by
  intro haway
  exact not_marks (by rw [haway]; rfl) nomination h

/-- The session that is not away is the one that marks. -/
theorem Once.marks {nomination : ℕ} {j : ι} (h : Once s) (hi : (s.sessions i).phase ≠ .away)
    (hj : (s.sessions j).Marks nomination) : (s.sessions i).Marks nomination := by
  obtain rfl := h.one i j hi (not_away_of_marks hj)
  exact hj

theorem Once.consumed {text : Text} {j : ι} (h : Once s) (hi : (s.sessions i).phase ≠ .away)
    (hj : text ∈ (s.sessions j).consumed) : text ∈ (s.sessions i).consumed := by
  have haway : (s.sessions j).phase ≠ .away := by
    intro haway
    rw [(h.sessions j).away haway] at hj
    cases hj
  obtain rfl := h.one i j hi haway
  exact hj

theorem Once.others {j : ι} (h : Once s) (hi : (s.sessions i).phase ≠ .away) (hj : j ≠ i) :
    (s.sessions j).phase = .away := by
  by_contra haway
  exact hj (h.one i j hi haway)

theorem Sound.accepted_lt (h : Sound readLine s) {nomination : ℕ}
    (hn : nomination ∈ s.accepted) : nomination < s.nominated.length := by
  obtain ⟨post, hpost, rfl⟩ := List.mem_map.1 hn
  obtain ⟨origin, hnamed⟩ := h.posts post (List.mem_filter.1 hpost).1
  exact lt_of_named hnamed

theorem nodup_loadLegacy {legacy : List (ℕ × Text)} (h : (legacy.map (·.1)).Nodup) :
    ((loadLegacy readLine legacy).map (·.nomination)).Nodup := by
  induction legacy with
  | nil => exact List.nodup_nil
  | cons l legacy ih =>
    obtain ⟨hl, hlegacy⟩ := List.nodup_cons.1 h
    unfold loadLegacy
    rw [List.filterMap_cons]
    split
    · exact ih hlegacy
    · next e he =>
      obtain ⟨x, -, rfl⟩ := Option.map_eq_some_iff.1 he
      refine List.nodup_cons.2 ⟨fun hmem => hl ?_, ih hlegacy⟩
      obtain ⟨e, he, hsame⟩ := List.mem_map.1 hmem
      obtain ⟨l', hl', timestamp, payload, hline, rfl⟩ := mem_loadLegacy.1 he
      exact List.mem_map.2 ⟨l', hl', hsame⟩

/-- A nomination comes in. -/
theorem Once.nominates (h : Once s) (haccepted : t.accepted = s.accepted)
    (hsessions : t.sessions = s.sessions)
    (hpending : ∀ key d, t.documents key = some d → d.nomination ∈ s.accepted →
      s.documents key = some d)
    (hlines : ∀ l ∈ t.legacy, l.1 ∈ s.accepted → l ∈ s.legacy)
    (hdistinct : (t.legacy.map (·.1)).Nodup) : Once t := by
  refine ⟨haccepted ▸ h.nodup, hsessions ▸ h.one, fun j => ?_, fun key d hd houtcome hd' => ?_,
    fun l hl hl' => ?_, hdistinct⟩
  · rw [hsessions, haccepted]
    exact h.sessions j
  · rw [haccepted] at hd'
    rw [hsessions]
    exact h.pending key d (hpending key d hd hd') houtcome hd'
  · rw [haccepted] at hl'
    rw [hsessions]
    exact h.lines l (hlines l hl hl') hl'

/-- A document is read: it is pending, and no session is marking. -/
theorem SessionOnce.loads (hsound : Sound readLine s) (h : Once s) {key : Text} {keys : List Text}
    {entries : List Entry} {found : Option Entry}
    (hi : (s.sessions i).phase = .loading (key :: keys) entries)
    (hfound : ∀ e ∈ found, entryOf s.documents key = some e) :
    SessionOnce s.accepted
      { s.sessions i with phase := .loading keys (entries ++ found.toList) } := by
  have hsession := h.sessions i
  have hold := hsession.undecided
  have hdistinct := hsession.distinct
  rw [hi] at hold hdistinct
  obtain ⟨hkeys, hconsumed, horigins⟩ := hsession.loading _ _ hi
  obtain ⟨hkey, hkeys⟩ := List.nodup_cons.1 hkeys
  have hnamed := (hsound.sessions i).entries
  rw [hi] at hnamed
  refine ⟨fun haway => absurd haway (by simp), fun e he => ?_, ?_, fun keys' entries' hphase => ?_⟩
  · rcases List.mem_append.1 he with he | he
    · exact hold e he
    · intro haccepted
      obtain ⟨d, hd, rfl⟩ := Option.map_eq_some_iff.1 (hfound e (Option.mem_toList.1 he))
      obtain ⟨hd, houtcome⟩ := Option.filter_eq_some_iff.1 hd
      obtain ⟨j, hj⟩ := h.pending key d hd (of_decide_eq_true houtcome) haccepted
      have haway : (s.sessions i).phase ≠ .away := by simp [hi]
      exact not_marks (by rw [hi]; rfl) _ (h.marks haway hj)
  · cases found with
    | none =>
      show ((entries ++ []).map Entry.nomination).Nodup
      rw [List.append_nil]
      exact hdistinct
    | some e =>
      show ((entries ++ [e]).map Entry.nomination).Nodup
      rw [List.map_append]
      refine List.Nodup.append hdistinct (List.nodup_singleton _) ?_
      intro n hn hn'
      obtain ⟨e', he', rfl⟩ := List.mem_map.1 hn
      have hsame : e'.nomination = e.nomination := List.mem_singleton.1 hn'
      have hfrom := named_of_entryOf hsound (hfound e rfl)
      rw [← hsame] at hfrom
      have horigin := origin_unique (hnamed e' he') hfrom
      obtain ⟨key', hkey', hout⟩ := horigins e' he'
      obtain ⟨d, hd, rfl⟩ := Option.map_eq_some_iff.1 (hfound e rfl)
      rw [hkey'] at horigin
      obtain rfl := Origin.stored.inj horigin
      exact hout List.mem_cons_self
  · obtain ⟨rfl, rfl⟩ := Phase.loading.inj hphase
    refine ⟨hkeys, hconsumed, fun e he => ?_⟩
    rcases List.mem_append.1 he with he | he
    · obtain ⟨key', hkey', hout⟩ := horigins e he
      exact ⟨key', hkey', fun hmem => hout (List.mem_cons_of_mem _ hmem)⟩
    · obtain ⟨d, hd, rfl⟩ := Option.map_eq_some_iff.1 (hfound e (Option.mem_toList.1 he))
      exact ⟨key, rfl, hkey⟩

/-- The old queue is read after the documents: its lines are other nominations. -/
theorem SessionOnce.loadsLegacy (hsound : Sound readLine s) (h : Once s) {entries : List Entry}
    (hi : (s.sessions i).phase = .loading [] entries) :
    SessionOnce s.accepted { s.sessions i with
      phase := .asking (entries ++ loadLegacy readLine s.legacy) } := by
  have hsession := h.sessions i
  have hold := hsession.undecided
  have hdistinct := hsession.distinct
  rw [hi] at hold hdistinct
  obtain ⟨-, hconsumed, horigins⟩ := hsession.loading _ _ hi
  have hnamed := (hsound.sessions i).entries
  rw [hi] at hnamed
  refine ⟨fun haway => absurd haway (by simp), fun e he => ?_, ?_,
    fun keys' entries' hphase => absurd hphase (by simp)⟩
  · rcases List.mem_append.1 he with he | he
    · exact hold e he
    · intro haccepted
      obtain ⟨l, hl, timestamp, payload, hline, rfl⟩ := mem_loadLegacy.1 he
      have haway : (s.sessions i).phase ≠ .away := by simp [hi]
      obtain ⟨j, hj | hj⟩ := h.lines l hl haccepted
      · exact not_marks (by rw [hi]; rfl) _ (h.marks haway hj)
      · have hmem := h.consumed haway hj
        rw [hconsumed] at hmem
        cases hmem
  · show ((entries ++ loadLegacy readLine s.legacy).map (·.nomination)).Nodup
    rw [List.map_append]
    refine List.Nodup.append hdistinct (nodup_loadLegacy h.distinct) ?_
    intro n hn hn'
    obtain ⟨e, he, rfl⟩ := List.mem_map.1 hn
    obtain ⟨e', he', hsame⟩ := List.mem_map.1 hn'
    obtain ⟨l, hl, timestamp, payload, hline, rfl⟩ := mem_loadLegacy.1 he'
    obtain ⟨timestamp', payload', hline', hl'⟩ := hsound.legacy l hl
    have hsame : l.1 = e.nomination := hsame
    rw [hsame] at hl'
    obtain ⟨key, hkey, -⟩ := horigins e he
    have horigin := origin_unique (hnamed e he) hl'
    rw [hkey] at horigin
    cases horigin

/-- What is left after the first entry. -/
theorem SessionOnce.rest {accepted : List ℕ} {session : Session} {entry : Entry}
    {rest : List Entry} (h : SessionOnce accepted session)
    (hphase : session.phase.entries = entry :: rest) {phase : Phase} (hrest : phase.entries = rest)
    (haway : phase ≠ .away) (hloading : ∀ keys entries, phase ≠ .loading keys entries) :
    SessionOnce accepted { session with phase := phase } := by
  have hold := h.undecided
  have hdistinct := h.distinct
  rw [hphase] at hold hdistinct
  refine ⟨fun h => absurd h haway, fun e he => ?_, ?_, fun keys entries h => absurd h (hloading _ _)⟩
  · rw [hrest] at he
    exact hold e (List.mem_cons_of_mem _ he)
  · rw [hrest]
    exact (List.nodup_cons.1 hdistinct).2

/-- A session that is away has nothing, whatever was accepted. -/
theorem SessionOnce.of_away {accepted accepted' : List ℕ} {session : Session}
    (h : SessionOnce accepted session) (haway : session.phase = .away) :
    SessionOnce accepted' session := by
  refine ⟨h.away, fun e he => ?_, ?_, fun keys entries hphase => ?_⟩
  · rw [haway] at he
    cases he
  · rw [haway]
    exact List.nodup_nil
  · rw [haway] at hphase
    cases hphase

theorem sessionOnce_away (accepted : List ℕ) : SessionOnce accepted { phase := .away } :=
  ⟨fun _ => rfl, fun _ he => absurd he List.not_mem_nil, List.nodup_nil,
    fun _ _ h => absurd h (by simp)⟩

variable [DecidableEq ι]

theorem Once.one_update {session : Session} (h : Once s)
    (hsessions : t.sessions = Function.update s.sessions i session)
    (hone : session.phase ≠ .away → ∀ j, j ≠ i → (s.sessions j).phase = .away) :
    ∀ j k, (t.sessions j).phase ≠ .away → (t.sessions k).phase ≠ .away → k = j := by
  intro j k hj hk
  rw [hsessions] at hj hk
  by_cases hji : j = i
  · subst hji
    by_contra hkj
    rw [Function.update_self] at hj
    rw [Function.update_of_ne hkj] at hk
    exact hk (hone hj k hkj)
  · rw [Function.update_of_ne hji] at hj
    by_cases hki : k = i
    · subst hki
      rw [Function.update_self] at hk
      exact absurd (hone hk j hji) hj
    · rw [Function.update_of_ne hki] at hk
      exact h.one j k hj hk

theorem sessionOnce_update {accepted : List ℕ} {session : Session}
    (hsessions : t.sessions = Function.update s.sessions i session)
    (hsession : SessionOnce accepted session)
    (hothers : ∀ j, j ≠ i → SessionOnce accepted (s.sessions j)) :
    ∀ j, SessionOnce accepted (t.sessions j) := by
  intro j
  rw [hsessions]
  by_cases hj : j = i
  · subst hj
    rw [Function.update_self]
    exact hsession
  · rw [Function.update_of_ne hj]
    exact hothers j hj

/-- A session that marks nothing moves, and forgets none of its lines. -/
theorem Once.frame {session : Session} (h : Once s) (hdocuments : t.documents = s.documents)
    (hlegacy : t.legacy = s.legacy) (haccepted : t.accepted = s.accepted)
    (hsessions : t.sessions = Function.update s.sessions i session)
    (hnone : ∀ x ∈ (s.sessions i).phase.inHand, x.2 = .discarded)
    (hconsumed : (s.sessions i).consumed ⊆ session.consumed)
    (hone : session.phase ≠ .away → ∀ j, j ≠ i → (s.sessions j).phase = .away)
    (hsession : SessionOnce s.accepted session) : Once t := by
  have hnot : ∀ nomination, ¬ (s.sessions i).Marks nomination := by
    intro nomination hmarks
    obtain ⟨x, hx, -, houtcome⟩ := hmarks
    rw [hnone x hx] at houtcome
    cases houtcome
  have hother : ∀ j, j ≠ i → t.sessions j = s.sessions j := by
    intro j hj
    rw [hsessions, Function.update_of_ne hj]
  refine ⟨haccepted ▸ h.nodup, h.one_update hsessions hone, ?_, fun key d hd houtcome hd' => ?_,
    fun l hl hl' => ?_, hlegacy ▸ h.distinct⟩
  · rw [haccepted]
    exact sessionOnce_update hsessions hsession fun j _ => h.sessions j
  · rw [hdocuments] at hd
    rw [haccepted] at hd'
    obtain ⟨j, hj⟩ := h.pending key d hd houtcome hd'
    have hji : j ≠ i := by
      intro hji
      exact hnot _ (hji ▸ hj)
    exact ⟨j, by rw [hother j hji]; exact hj⟩
  · rw [hlegacy] at hl
    rw [haccepted] at hl'
    obtain ⟨j, hj⟩ := h.lines l hl hl'
    by_cases hji : j = i
    · subst hji
      refine ⟨j, .inr ?_⟩
      rw [hsessions, Function.update_self]
      rcases hj with hj | hj
      · exact absurd hj (hnot _)
      · exact hconsumed hj
    · exact ⟨j, by rw [hother j hji]; exact hj⟩

/-- The endpoint accepts the first entry, and the session is about to mark it. -/
theorem Once.posts {entry : Entry} {rest : List Entry} (h : Once s)
    (hi : (s.sessions i).phase = .asking (entry :: rest)) :
    Once ((s.post entry true).goto i (.resolving entry .replayed rest)) := by
  have hsession := h.sessions i
  have hactive : (s.sessions i).phase ≠ .away := by simp [hi]
  have hentries : (s.sessions i).phase.entries = entry :: rest := by rw [hi]; rfl
  have hnew : entry.nomination ∉ s.accepted :=
    hsession.undecided entry (by rw [hentries]; exact List.mem_cons_self)
  have haccepted : ((s.post entry true).goto i (.resolving entry .replayed rest)).accepted =
      s.accepted ++ [entry.nomination] := by
    simp [State.accepted, State.goto, State.setSession, State.post, List.filter_append]
  have hself : ((s.post entry true).goto i (.resolving entry .replayed rest)).sessions i =
      { s.sessions i with phase := .resolving entry .replayed rest } := Function.update_self ..
  have hrest : SessionOnce s.accepted
      { s.sessions i with phase := .resolving entry .replayed rest } :=
    hsession.rest hentries rfl (by simp) (by simp)
  have hdistinct := hsession.distinct
  rw [hentries] at hdistinct
  refine ⟨?_, h.one_update rfl fun _ j hj => h.others hactive hj, ?_,
    fun key d hd houtcome hd' => ?_, fun l hl hl' => ?_, h.distinct⟩
  · rw [haccepted]
    refine List.Nodup.append h.nodup (List.nodup_singleton _) fun n hn hn' => ?_
    rw [List.mem_singleton.1 hn'] at hn
    exact hnew hn
  · rw [haccepted]
    refine sessionOnce_update rfl ⟨hrest.away, fun e he hmem => ?_, hrest.distinct, hrest.loading⟩
      fun j hj => (h.sessions j).of_away (h.others hactive hj)
    rcases List.mem_append.1 hmem with hmem | hmem
    · exact hrest.undecided e he hmem
    · have hsame := List.mem_singleton.1 hmem
      exact (List.nodup_cons.1 hdistinct).1 (List.mem_map.2 ⟨e, he, hsame⟩)
  · refine ⟨i, ?_⟩
    rw [hself]
    rw [haccepted] at hd'
    rcases List.mem_append.1 hd' with hd' | hd'
    · obtain ⟨j, hj⟩ := h.pending key d hd houtcome hd'
      exact absurd (h.marks hactive hj) (not_marks (by rw [hi]; rfl) _)
    · exact ⟨_, List.mem_singleton.2 rfl, (List.mem_singleton.1 hd').symm, rfl⟩
  · refine ⟨i, ?_⟩
    rw [hself]
    rw [haccepted] at hl'
    rcases List.mem_append.1 hl' with hl' | hl'
    · obtain ⟨j, hj | hj⟩ := h.lines l hl hl'
      · exact absurd (h.marks hactive hj) (not_marks (by rw [hi]; rfl) _)
      · exact .inr (h.consumed hactive hj)
    · exact .inl ⟨_, List.mem_singleton.2 rfl, (List.mem_singleton.1 hl').symm, rfl⟩

/-- What was in hand is marked: its document is not pending, or its line is done with. -/
theorem Once.settles {entry : Entry} {outcome : Outcome} {rest : List Entry} {consumed : List Text}
    (h : Once s) (hi : (s.sessions i).phase = .resolving entry outcome rest)
    (hlegacy : t.legacy = s.legacy) (haccepted : t.accepted = s.accepted)
    (hsessions : t.sessions = Function.update s.sessions i
      { s.sessions i with phase := .asking rest, consumed := consumed })
    (hconsumed : (s.sessions i).consumed ⊆ consumed)
    (hpending : ∀ key d, t.documents key = some d → d.outcome = none →
      s.documents key = some d ∧ d.nomination ≠ entry.nomination)
    (hlines : ∀ l ∈ s.legacy, l.1 = entry.nomination → l.2.strip ∈ consumed) : Once t := by
  have hsession := h.sessions i
  have hactive : (s.sessions i).phase ≠ .away := by simp [hi]
  have hentries : (s.sessions i).phase.entries = rest := by rw [hi]; rfl
  have hmarks : ∀ n, (s.sessions i).Marks n → n = entry.nomination := by
    intro n hn
    obtain ⟨x, hx, rfl, -⟩ := hn
    rw [hi] at hx
    rw [List.mem_singleton.1 hx]
  have hold := hsession.undecided
  have hdistinct := hsession.distinct
  rw [hentries] at hold hdistinct
  refine ⟨haccepted ▸ h.nodup, h.one_update hsessions fun _ j hj => h.others hactive hj, ?_,
    fun key d hd houtcome hd' => ?_, fun l hl hl' => ?_, hlegacy ▸ h.distinct⟩
  · rw [haccepted]
    exact sessionOnce_update hsessions ⟨fun haway => absurd haway (by simp), hold, hdistinct,
      fun keys entries hphase => absurd hphase (by simp)⟩ fun j _ => h.sessions j
  · rw [haccepted] at hd'
    obtain ⟨hd, hne⟩ := hpending key d hd houtcome
    obtain ⟨j, hj⟩ := h.pending key d hd houtcome hd'
    exact absurd (hmarks _ (h.marks hactive hj)) hne
  · rw [haccepted] at hl'
    rw [hlegacy] at hl
    refine ⟨i, .inr ?_⟩
    rw [hsessions, Function.update_self]
    obtain ⟨j, hj | hj⟩ := h.lines l hl hl'
    · exact hlines l hl (hmarks _ (h.marks hactive hj))
    · exact hconsumed (h.consumed hactive hj)

/-- The lines that are done with leave the file. -/
theorem Once.finishes (h : Once s) (hi : (s.sessions i).phase = .asking []) :
    Once { s.setSession i { phase := .away } with
      legacy := s.legacy.filter (·.2.strip ∉ (s.sessions i).consumed) } := by
  have hactive : (s.sessions i).phase ≠ .away := by simp [hi]
  refine ⟨h.nodup, h.one_update rfl fun haway => absurd rfl haway,
    sessionOnce_update rfl (sessionOnce_away _) fun j _ => h.sessions j,
    fun key d hd houtcome hd' => ?_, fun l hl hl' => ?_, ?_⟩
  · obtain ⟨j, hj⟩ := h.pending key d hd houtcome hd'
    exact absurd (h.marks hactive hj) (not_marks (by rw [hi]; rfl) _)
  · obtain ⟨hl, hout⟩ := List.mem_filter.1 hl
    obtain ⟨j, hj | hj⟩ := h.lines l hl hl'
    · exact absurd (h.marks hactive hj) (not_marks (by rw [hi]; rfl) _)
    · exact absurd (h.consumed hactive hj) (of_decide_eq_true hout)
  · exact h.distinct.sublist (List.filter_sublist.map _)

theorem Once.move (hsound : Sound readLine s) (h : Once s) (ha : Orderly s a)
    (hmove : Move readLine s a t) : Once t := by
  have hactive : ∀ i, (s.sessions i).phase ≠ .away → ∀ j, j ≠ i → (s.sessions j).phase = .away :=
    fun i hi j hj => h.others hi hj
  cases hmove with
  | notQueued => exact h
  | @queues payload timestamp saved =>
    refine h.nominates rfl rfl (fun key d hd haccepted => ?_) (fun l hl _ => hl) h.distinct
    by_cases hkey : key = payload.id.strip
    · subst hkey
      simp only [State.nominate, State.setDocument, Function.update_self] at hd
      obtain rfl := Option.some.inj hd
      exact absurd (hsound.accepted_lt haccepted) (Nat.lt_irrefl _)
    · simp only [State.nominate, State.setDocument, Function.update_of_ne hkey] at hd
      exact hd
  | @appends line timestamp payload hline =>
    refine h.nominates rfl rfl (fun key d hd _ => hd) (fun l hl haccepted => ?_) ?_
    · rcases List.mem_append.1 hl with hl | hl
      · exact hl
      · obtain rfl := List.mem_singleton.1 hl
        exact absurd (hsound.accepted_lt haccepted) (Nat.lt_irrefl _)
    · show ((s.legacy ++ [(s.nominated.length, line)]).map Prod.fst).Nodup
      rw [List.map_append]
      refine List.Nodup.append h.distinct (List.nodup_singleton _) fun n hn hn' => ?_
      obtain ⟨l, hl, rfl⟩ := List.mem_map.1 hn
      obtain ⟨timestamp, payload, -, hnamed⟩ := hsound.legacy l hl
      have hlt := lt_of_named hnamed
      rw [List.mem_singleton.1 hn'] at hlt
      exact Nat.lt_irrefl _ hlt
  | @starts i filter approveAll keys hi hkeys =>
    refine h.frame rfl rfl rfl rfl (fun x hx => ?_) ?_ (fun _ j _ => ha j) ?_
    · rw [hi] at hx
      cases hx
    · rw [(h.sessions i).away hi]
      exact List.nil_subset _
    · refine ⟨fun haway => absurd haway (by simp), fun e he => absurd he List.not_mem_nil,
        List.nodup_nil, fun keys' entries' hphase => ?_⟩
      obtain ⟨rfl, rfl⟩ := Phase.loading.inj hphase
      exact ⟨hkeys, rfl, fun e he => absurd he List.not_mem_nil⟩
  | @loads i got key keys entries found hi hfound =>
    refine h.frame rfl rfl rfl rfl (fun x hx => ?_) (List.Subset.refl _)
      (fun _ => hactive i (by simp [hi])) (.loads hsound h hi hfound)
    rw [hi] at hx
    cases hx
  | @loadsLegacy i got entries hi =>
    refine h.frame rfl rfl rfl rfl (fun x hx => ?_) (List.Subset.refl _)
      (fun _ => hactive i (by simp [hi])) (.loadsLegacy hsound h hi)
    rw [hi] at hx
    cases hx
  | @skips i input accepted entry rest hi =>
    refine h.frame rfl rfl rfl rfl (fun x hx => ?_) (List.Subset.refl _)
      (fun _ => hactive i (by simp [hi]))
      ((h.sessions i).rest (by rw [hi]; rfl) rfl (by simp) (by simp))
    rw [hi] at hx
    cases hx
  | @fails i input entry rest hi =>
    refine h.frame rfl rfl ?_ rfl (fun x hx => ?_) (List.Subset.refl _)
      (fun _ => hactive i (by simp [hi]))
      ((h.sessions i).rest (by rw [hi]; rfl) rfl (by simp) (by simp))
    · simp [State.accepted, State.goto, State.setSession, State.post, List.filter_append]
    · rw [hi] at hx
      cases hx
  | posts hi => exact h.posts hi
  | @refuses i input accepted entry rest hi =>
    refine h.frame rfl rfl rfl rfl (fun x hx => ?_) (List.Subset.refl _)
      (fun _ => hactive i (by simp [hi]))
      ((h.sessions i).rest (by rw [hi]; rfl) rfl (by simp) (by simp))
    rw [hi] at hx
    cases hx
  | @consumes i saved entry outcome rest text hi horigin =>
    have hnamed := ((hsound.sessions i).inHand (entry, outcome) (by
      rw [hi]
      exact List.mem_singleton.2 rfl)).1
    rw [horigin] at hnamed
    refine h.settles hi rfl rfl rfl (List.subset_append_left _ _) (fun key d hd _ => ⟨hd, ?_⟩)
      fun l hl hsame => ?_
    · intro hsame
      have hd := (hsound.documents key d hd).1
      rw [hsame] at hd
      cases origin_unique hnamed hd
    · obtain ⟨timestamp, payload, -, hline⟩ := hsound.legacy l hl
      rw [hsame] at hline
      obtain rfl := Origin.line.inj (origin_unique hnamed hline)
      exact List.mem_append_right _ (List.mem_singleton.2 rfl)
  | @marks i entry outcome rest key hi horigin =>
    have hnamed := ((hsound.sessions i).inHand (entry, outcome) (by
      rw [hi]
      exact List.mem_singleton.2 rfl)).1
    rw [horigin] at hnamed
    refine h.settles hi rfl rfl rfl (List.Subset.refl _) (fun key' d hd houtcome => ?_)
      fun l hl hsame => ?_
    · by_cases hkey : key' = key
      · subst hkey
        simp only [State.goto, State.setSession, State.setDocument, Function.update_self] at hd
        obtain rfl := Option.some.inj hd
        cases houtcome
      · simp only [State.goto, State.setSession, State.setDocument,
          Function.update_of_ne hkey] at hd
        refine ⟨hd, fun hsame => ?_⟩
        have hd := (hsound.documents key' d hd).1
        rw [hsame] at hd
        exact hkey (Origin.stored.inj (origin_unique hd hnamed))
    · obtain ⟨timestamp, payload, -, hline⟩ := hsound.legacy l hl
      rw [hsame] at hline
      cases origin_unique hnamed hline
  | unmarked | dies => cases ha
  | finishes hi => exact h.finishes hi
  | @crashes i =>
    obtain ⟨hconsumed, hnone⟩ := ha
    refine h.frame rfl rfl rfl rfl hnone ?_ (fun haway => absurd rfl haway) (sessionOnce_away _)
    rw [hconsumed]
    exact List.nil_subset _

omit [DecidableEq ι] in
theorem AtStart.once (h : AtStart s) : Once s := by
  obtain ⟨hdocuments, hlegacy, hsessions, -, hposts, -⟩ := h
  refine ⟨?_, fun i j hi _ => ?_, fun i => ?_, fun key d hd => ?_, fun l hl => ?_, ?_⟩
  · rw [State.accepted, hposts]
    exact List.nodup_nil
  · rw [hsessions i] at hi
    exact absurd rfl hi
  · rw [hsessions i]
    exact sessionOnce_away _
  · rw [hdocuments] at hd
    cases hd
  · rw [hlegacy] at hl
    cases hl
  · rw [hlegacy]
    exact List.nodup_nil

/-- **The endpoint accepts a nomination once**, and what it accepted is in no session's list, where
sessions take turns and what was accepted is marked. -/
theorem accepted_once (hs : (approvals readLine : Machine (State ι) (Action ι)).Reach Orderly s) :
    s.accepted.Nodup ∧ ∀ i, ∀ e ∈ (s.sessions i).phase.entries, e.nomination ∉ s.accepted := by
  obtain ⟨-, h⟩ := hs.invariant (I := fun s => Sound readLine s ∧ Once s)
    (fun _ h => ⟨AtStart.sound h, AtStart.once h⟩) fun _ _ _ h ha ht =>
      ⟨h.1.move (move_of_step ht), h.2.move h.1 ha (move_of_step ht)⟩
  exact ⟨h.nodup, fun i => (h.sessions i).undecided⟩

end

instance (s : State Bool) : (a : Action Bool) → Decidable (Orderly s a)
  | .start _ _ _ _ => inferInstanceAs (Decidable (∀ _, _))
  | .resolve _ saved => inferInstanceAs (Decidable (saved = true))
  | .crash _ => inferInstanceAs (Decidable (_ ∧ _))
  | .queue _ _ _ | .append _ | .load _ _ | .answer _ _ _ | .finish _ => isTrue trivial

/-- One operator approves a packet, and then the other is asked about nothing. -/
theorem approved_once : ∃ s : State Bool, (approvals noLines).Reach Orderly s ∧
    s.accepted = [0] ∧ (s.sessions false).phase = .asking [] ∧ s.accepted.Nodup := by
  obtain ⟨s, hs, hp⟩ := (approvals noLines).exists_reach_runWhere
    (c := fun s a => decide (Orderly s a)) (fun _ _ h => of_decide_eq_true h)
    noneNominated_start
    (approvedBy true ++ [.finish true, .start false [] true ["REF1".toList], .load false true,
      .load false true])
    (fun s => s.accepted = [0] ∧ (s.sessions false).phase = .asking []) (by decide)
  obtain ⟨haccepted, hphase⟩ := of_decide_eq_true hp
  exact ⟨s, hs, haccepted, hphase, (accepted_once hs).1⟩

end ResidentCrm.Replays
