import ResidentCrm.Prompts.Graphs

/-!
# Graphs and prompts in every interleaving

The lanes publish a graph, its catalog and its revision one after the other, and `get_agent` reads
the catalog and the revision before the graph, without the lock: what it returns is no older than
either (`CacheOk`, `Told`).
-/

namespace ResidentCrm.Prompts

variable {S ι : Type*} {site : Site S ι} {quiet : Prop}

/-- The thread is in the section under `_agent_lock`. -/
def Phase.holds : Phase → Bool
  | .holding | .rechecked | .pinning | .pinned _ | .building _ | .agentSet _ | .catalogSet _
  | .promptsSet _ => true
  | _ => false

/-- A cache no graph of which is being published. -/
structure Settled (ℓ : Lane) (cache : Cache S ι) : Prop where
  prompts : cache.agentPrompts = cache.agent
  catalog : ℓ = .rejection → cache.agentCatalog = cache.agent
  remembered : ∀ n, cache.agent = some n → cache.builtFrom n ≠ none

/-- The cache while the holder of its lock is in the phase. -/
def Holds (ℓ : Lane) (cache : Cache S ι) : Phase → Prop
  | .pinned q => Settled ℓ cache ∧ ∀ build ∈ cache.builds, build.snapshot ≤ q
  | .building n => Settled ℓ cache ∧ n + 1 = cache.builds.length
  | .agentSet n => n + 1 = cache.builds.length ∧ cache.agent = some n
  | .catalogSet n =>
    n + 1 = cache.builds.length ∧ cache.agent = some n ∧
      (ℓ = .rejection → cache.agentCatalog = some n)
  | .promptsSet n =>
    n + 1 = cache.builds.length ∧ cache.agent = some n ∧
      (ℓ = .rejection → cache.agentCatalog = some n) ∧ cache.agentPrompts = some n
  | _ => Settled ℓ cache

/-- `m` is the number of a build of the cache, and the graph is not of an older one. -/
def NotAfter (cache : Cache S ι) (m : ℕ) : Prop := ∃ n, cache.agent = some n ∧ m ≤ n

/-- A graph that is remembered, or still the last published. -/
def Kept (cache : Cache S ι) (n : ℕ) : Prop := cache.agent = some n ∨ cache.builtFrom n ≠ none

/-- What holds of a cache whoever has its lock. -/
structure CacheOk (ℓ : Lane) (used : ℕ) (cache : Cache S ι) : Prop where
  agent : ∀ n, cache.agent = some n → n < cache.builds.length
  catalog : ∀ n, cache.agentCatalog = some n → n < cache.builds.length
  prompts : ∀ n, cache.agentPrompts = some n → NotAfter cache n
  catalogFirst : ℓ = .rejection → ∀ n, cache.agentCatalog = some n → NotAfter cache n
  remembered : ∀ n q, cache.builtFrom n = some q →
    ∃ build, cache.builds[n]? = some build ∧ build.snapshot = q
  used : ∀ build ∈ cache.builds, build.snapshot < used
  ordered : cache.builds.Pairwise fun a b => a.snapshot ≤ b.snapshot

/-- The lane's cache, and what its lock's holder is at. -/
structure LaneOk (site : Site S ι) (s : State S ι) (ℓ : Lane) : Prop
    extends CacheOk ℓ s.used.length (s.caches ℓ) where
  free : (s.caches ℓ).lock = none → Settled ℓ (s.caches ℓ)
  held : ∀ i, (s.caches ℓ).lock = some i →
    site.lane i = ℓ ∧ (s.calls i).phase.holds = true ∧ Holds ℓ (s.caches ℓ) (s.calls i).phase

/-! ## What a thread has seen -/

/-- The thread has read `prompts`. -/
def Phase.hasAsked : Phase → Bool
  | .idle | .refreshing | .fetched _ | .checked _ | .refreshed | .raised => false
  | _ => true

section

/-- The graph `n` is of the revision of a snapshot put in use no earlier than the thread asked, or
of no older a build than one of the revision it was told. -/
def Revised (site : Site S ι) (s : State S ι) (ℓ : Lane) (asked n : ℕ) : Prop :=
  ∃ build, (s.caches ℓ).builds[n]? = some build ∧
    ((∃ p, asked ≤ p ∧ p < s.used.length ∧
      s.revision site build.snapshot = s.revision site p) ∨
    ∃ m earlier, m ≤ n ∧ (s.caches ℓ).builds[m]? = some earlier ∧
      s.revision site earlier.snapshot = s.revision site asked)

variable [DecidableEq S]

/-- The graph `n` is of no older a build than the one whose catalog was in place when the thread
called, and if it is that one's, it was not due for another. -/
def NotDue (site : Site S ι) (cache : Cache S ι) (call : Call) (n : ℕ) : Prop :=
  ∀ k, call.beside = some k → k ≤ n ∧
    (k = n → ∀ build, cache.builds[k]? = some build →
      isStale site call.began (some build.catalog) = false)

/-- What holds of the snapshots, the builds and the graph for a thread in the phase; `quiet` is that
no run begins while its graph is being published. -/
def Saw (site : Site S ι) (quiet : Prop) (s : State S ι) (ℓ : Lane) (call : Call) : Prop :=
  let cache := s.caches ℓ
  let graphNotDue := ℓ = .rejection → ∃ n, cache.agent = some n ∧ NotDue site cache call n
  match call.phase with
  | .fetched snapshot => snapshot.Covers site.entries
  | .checked snapshot =>
    snapshot.Covers site.entries ∧ site.checkTexts snapshot.texts = []
  | .agentSeen => cache.agent.isSome
  | .catalogFresh _ | .rechecked => graphNotDue
  | .promptsMatch m =>
    graphNotDue ∧ NotAfter cache m ∧ ∃ build, cache.builds[m]? = some build ∧
      s.revision site build.snapshot = s.revision site call.asked
  | .pinned q => q < s.used.length ∧ call.asked ≤ q
  | .building n | .agentSet n | .catalogSet n | .promptsSet n =>
    (∃ build, cache.builds[n]? = some build ∧ call.asked ≤ build.snapshot) ∧
      NotDue site cache call n
  | .returned n =>
    (Revised site s ℓ call.asked n ∧ (ℓ = .rejection → NotDue site cache call n)) ∧
      Kept cache n
  | .running n q =>
    (Revised site s ℓ call.asked n ∧ (ℓ = .rejection → NotDue site cache call n)) ∧
      q < s.used.length ∧
      (quiet → ∃ build, cache.builds[n]? = some build ∧ build.snapshot = q)
  | _ => True

structure CallOk (site : Site S ι) (quiet : Prop) (s : State S ι) (ℓ : Lane) (call : Call) : Prop where
  began : call.began ≤ s.now
  asked : call.phase.hasAsked = true → call.asked < s.used.length
  beside : ∀ k, call.beside = some k → ∃ k', (s.caches ℓ).agentCatalog = some k' ∧ k ≤ k'
  saw : Saw site quiet s ℓ call

/-- **The invariant.** -/
structure Inv (site : Site S ι) (quiet : Prop) (s : State S ι) : Prop where
  used : ∀ snapshot ∈ s.used,
    snapshot.Covers site.entries ∧ site.checkTexts snapshot.texts = []
  lanes : ∀ ℓ, LaneOk site s ℓ
  lock : ∀ i, (s.calls i).phase.holds = true → (s.caches (site.lane i)).lock = some i
  calls : ∀ i, CallOk site quiet s (site.lane i) (s.calls i)

end

/-! ## What a step leaves as it is -/

section

/-- What no step takes back of a lane. -/
structure CacheGrows (cache cache' : Cache S ι) : Prop where
  builds : cache.builds <+: cache'.builds
  agent : ∀ n, cache.agent = some n → ∃ n', cache'.agent = some n' ∧ n ≤ n'
  catalog : ∀ n, cache.agentCatalog = some n → ∃ n', cache'.agentCatalog = some n' ∧ n ≤ n'
  kept : ∀ n, Kept cache n → Kept cache' n

structure Grows (s t : State S ι) : Prop where
  used : s.used <+: t.used
  now : s.now ≤ t.now
  caches : ∀ ℓ, CacheGrows (s.caches ℓ) (t.caches ℓ)

variable {s t : State S ι} {ℓ : Lane} {i j : ι} {call : Call} {m n : ℕ}

theorem CacheGrows.refl (cache : Cache S ι) : CacheGrows cache cache :=
  ⟨List.prefix_rfl, fun n h => ⟨n, h, le_rfl⟩, fun n h => ⟨n, h, le_rfl⟩, fun _ h => h⟩

theorem getElem?_of_prefix {α : Type*} {xs ys : List α} (h : xs <+: ys) {x : α}
    (hx : xs[n]? = some x) : ys[n]? = some x := by
  obtain ⟨zs, rfl⟩ := h
  rw [List.getElem?_append_left (List.getElem?_eq_some_iff.1 hx).1, hx]

theorem Grows.revision (h : Grows s t) (hn : n < s.used.length) :
    t.revision site n = s.revision site n := by
  rw [State.revision, State.revision,
    getElem?_of_prefix h.used (List.getElem?_eq_getElem hn), List.getElem?_eq_getElem hn]

theorem Grows.length (h : Grows s t) : s.used.length ≤ t.used.length := h.used.length_le

theorem CacheOk.snapshot {used : ℕ} {cache : Cache S ι} (h : CacheOk ℓ used cache)
    {build : Build S} (hn : cache.builds[n]? = some build) : build.snapshot < used :=
  h.used build (List.mem_of_getElem? hn)

theorem Revised.mono (h : Grows s t) (hs : CacheOk ℓ s.used.length (s.caches ℓ)) {asked : ℕ}
    (hasked : asked < s.used.length) (hn : Revised site s ℓ asked n) :
    Revised site t ℓ asked n := by
  obtain ⟨build, hbuild, hor⟩ := hn
  refine ⟨build, getElem?_of_prefix (h.caches ℓ).builds hbuild, ?_⟩
  rw [h.revision (hs.snapshot hbuild)]
  apply hor.imp
  · rintro ⟨p, hp, hlt, heq⟩
    exact ⟨p, hp, hlt.trans_le h.length, by rw [heq, h.revision hlt]⟩
  · rintro ⟨m, earlier, hm, hearlier, heq⟩
    refine ⟨m, earlier, hm, getElem?_of_prefix (h.caches ℓ).builds hearlier, ?_⟩
    rw [h.revision (hs.snapshot hearlier), h.revision hasked, heq]

variable [DecidableEq S]

theorem NotDue.mono {cache cache' : Cache S ι} (h : cache.builds <+: cache'.builds)
    (hbeside : ∀ k, call.beside = some k → k < cache.builds.length)
    (hn : NotDue site cache call n) : NotDue site cache' call n := by
  intro k hk
  refine ⟨(hn k hk).1, fun hkn build hbuild => (hn k hk).2 hkn build ?_⟩
  rw [← hbuild, List.getElem?_eq_getElem (hbeside k hk),
    getElem?_of_prefix h (List.getElem?_eq_getElem (hbeside k hk))]

theorem NotDue.later {cache : Cache S ι} (hmn : m ≤ n) (hm : NotDue site cache call m) :
    NotDue site cache call n := by
  intro k hk
  obtain ⟨hle, hdue⟩ := hm k hk
  exact ⟨hle.trans hmn, fun hkn => hdue (by omega)⟩

theorem CallOk.besideLt {used : ℕ} (hc : CallOk site quiet s ℓ call)
    (hs : CacheOk ℓ used (s.caches ℓ)) : ∀ k, call.beside = some k →
      k < (s.caches ℓ).builds.length := by
  intro k hk
  obtain ⟨k', hk', hle⟩ := hc.beside k hk
  exact hle.trans_lt (hs.catalog k' hk')

omit [DecidableEq S] in
theorem NotAfter.mono {cache cache' : Cache S ι} (h : CacheGrows cache cache')
    (hm : NotAfter cache m) : NotAfter cache' m := by
  obtain ⟨n, hn, hle⟩ := hm
  obtain ⟨n', hn', hle'⟩ := h.agent n hn
  exact ⟨n', hn', hle.trans hle'⟩

theorem CallOk.mono (h : Grows s t) (hs : CacheOk ℓ s.used.length (s.caches ℓ))
    (hc : CallOk site quiet s ℓ call) : CallOk site quiet t ℓ call := by
  have hbuilds := (h.caches ℓ).builds
  have hnotDue : ∀ {n}, NotDue site (s.caches ℓ) call n → NotDue site (t.caches ℓ) call n :=
    NotDue.mono hbuilds (hc.besideLt hs)
  have hgraph : (∃ n, (s.caches ℓ).agent = some n ∧ NotDue site (s.caches ℓ) call n) →
      ∃ n, (t.caches ℓ).agent = some n ∧ NotDue site (t.caches ℓ) call n := by
    rintro ⟨n, hn, hdue⟩
    obtain ⟨n', hn', hle⟩ := (h.caches ℓ).agent n hn
    exact ⟨n', hn', (hnotDue hdue).later hle⟩
  have hbuilt : ∀ {n}, (∃ build, (s.caches ℓ).builds[n]? = some build ∧
      call.asked ≤ build.snapshot) ∧ NotDue site (s.caches ℓ) call n →
      (∃ build, (t.caches ℓ).builds[n]? = some build ∧ call.asked ≤ build.snapshot) ∧
        NotDue site (t.caches ℓ) call n := by
    rintro n ⟨⟨build, hbuild, hle⟩, hdue⟩
    exact ⟨⟨build, getElem?_of_prefix hbuilds hbuild, hle⟩, hnotDue hdue⟩
  refine ⟨hc.began.trans h.now, fun hask => (hc.asked hask).trans_le h.length, fun k hk => ?_, ?_⟩
  · obtain ⟨k', hk', hle⟩ := hc.beside k hk
    obtain ⟨k'', hk'', hle'⟩ := (h.caches ℓ).catalog k' hk'
    exact ⟨k'', hk'', hle.trans hle'⟩
  · have hasked := hc.asked
    have hsaw := hc.saw
    revert hsaw hasked
    unfold Saw
    cases call.phase with
    | fetched | checked => exact fun _ hsaw => hsaw
    | agentSeen =>
      intro _ hsome
      obtain ⟨n, hn⟩ := Option.isSome_iff_exists.1 hsome
      obtain ⟨n', hn', -⟩ := (h.caches ℓ).agent n hn
      exact Option.isSome_iff_exists.2 ⟨n', hn'⟩
    | catalogFresh | rechecked => exact fun _ hsaw hℓ => hgraph (hsaw hℓ)
    | promptsMatch m =>
      rintro hask ⟨hdue, hafter, build, hbuild, heq⟩
      refine ⟨fun hℓ => hgraph (hdue hℓ), hafter.mono (h.caches ℓ), build,
        getElem?_of_prefix hbuilds hbuild, ?_⟩
      rw [h.revision (hs.snapshot hbuild), h.revision (hask rfl), heq]
    | pinned q => exact fun _ hsaw => ⟨hsaw.1.trans_le h.length, hsaw.2⟩
    | building | agentSet | catalogSet | promptsSet => exact fun _ hsaw => hbuilt hsaw
    | returned n =>
      rintro hask ⟨⟨hrevised, hdue⟩, hkept⟩
      exact ⟨⟨hrevised.mono h hs (hask rfl), fun hℓ => hnotDue (hdue hℓ)⟩,
        (h.caches ℓ).kept n hkept⟩
    | running n q =>
      rintro hask ⟨⟨hrevised, hdue⟩, hlt, hown⟩
      refine ⟨⟨hrevised.mono h hs (hask rfl), fun hℓ => hnotDue (hdue hℓ)⟩,
        hlt.trans_le h.length, fun hquiet => ?_⟩
      obtain ⟨build, hbuild, hq⟩ := hown hquiet
      exact ⟨build, getElem?_of_prefix hbuilds hbuild, hq⟩
    | _ => exact fun _ _ => trivial

omit [DecidableEq S] in
theorem Grows.refl (s : State S ι) : Grows s s :=
  ⟨List.prefix_rfl, le_rfl, fun _ => .refl _⟩

/-- What all threads share may grow. -/
theorem Inv.frames (h : Inv site quiet s) (hg : Grows s t) (hcaches : t.caches = s.caches)
    (hcalls : t.calls = s.calls)
    (hused : ∀ snapshot ∈ t.used,
      snapshot.Covers site.entries ∧ site.checkTexts snapshot.texts = []) : Inv site quiet t where
  used := hused
  lanes ℓ := by
    have hlane := h.lanes ℓ
    refine ⟨?_, ?_, ?_⟩
    · rw [hcaches]
      exact { hlane.toCacheOk with
        used := fun build hb => (hlane.used build hb).trans_le hg.length }
    · rw [hcaches]
      exact hlane.free
    · rw [hcaches, hcalls]
      exact hlane.held
  lock := by
    rw [hcaches, hcalls]
    exact h.lock
  calls i := by
    rw [hcalls]
    exact (h.calls i).mono hg (h.lanes _).toCacheOk

omit [DecidableEq S] in
theorem setCache_self {cache : Cache S ι} : (s.setCache ℓ cache).caches ℓ = cache :=
  Function.update_self _ _ _

omit [DecidableEq S] in
theorem setCache_of_ne {cache : Cache S ι} {ℓ' : Lane} (hℓ : ℓ' ≠ ℓ) :
    (s.setCache ℓ cache).caches ℓ' = s.caches ℓ' := Function.update_of_ne hℓ _ _

omit [DecidableEq S] in
theorem grows_setCache {cache : Cache S ι} (hg : CacheGrows (s.caches ℓ) cache) :
    Grows s (s.setCache ℓ cache) := by
  refine ⟨List.prefix_rfl, le_rfl, fun ℓ' => ?_⟩
  by_cases hℓ : ℓ' = ℓ
  · subst hℓ
    rw [setCache_self]
    exact hg
  · rw [setCache_of_ne hℓ]
    exact .refl _

variable [DecidableEq ι]

omit [DecidableEq S] in
theorem setCall_self : (s.setCall i call).calls i = call := Function.update_self _ _ _

omit [DecidableEq S] in
theorem setCall_of_ne (hj : j ≠ i) : (s.setCall i call).calls j = s.calls j :=
  Function.update_of_ne hj _ _

theorem CallOk.setCall {call' : Call} (h : CallOk site quiet s ℓ call') :
    CallOk site quiet (s.setCall i call) ℓ call' := ⟨h.began, h.asked, h.beside, h.saw⟩

/-- A thread goes on, in the section or out of it as before. -/
theorem Inv.goes (h : Inv site quiet s) (hholds : call.phase.holds = (s.calls i).phase.holds)
    (hcache : call.phase.holds = true → Holds (site.lane i) (s.caches (site.lane i)) call.phase)
    (hcall : CallOk site quiet s (site.lane i) call) : Inv site quiet (s.setCall i call) where
  used := h.used
  lanes ℓ := by
    have hlane := h.lanes ℓ
    refine ⟨hlane.toCacheOk, hlane.free, fun j hj => ?_⟩
    obtain ⟨hℓ, hj', hheld⟩ := hlane.held j hj
    by_cases hji : j = i
    · subst hji
      rw [setCall_self]
      exact ⟨hℓ, hholds.trans hj', hℓ ▸ hcache (hholds.trans hj')⟩
    · rw [setCall_of_ne hji]
      exact ⟨hℓ, hj', hheld⟩
  lock j := by
    by_cases hji : j = i
    · subst hji
      rw [setCall_self, hholds]
      exact h.lock j
    · rw [setCall_of_ne hji]
      exact h.lock j
  calls j := by
    by_cases hji : j = i
    · subst hji
      rw [setCall_self]
      exact hcall.setCall
    · rw [setCall_of_ne hji]
      exact (h.calls j).setCall

/-- The cache of a thread's lane while the thread takes the lock, has it or leaves it. -/
inductive Section (ℓ : Lane) (cache : Cache S ι) (i : ι) (phase : Phase) : Prop
  | free : cache.lock = none → Settled ℓ cache → phase.holds = false → Section ℓ cache i phase
  | held : cache.lock = some i → phase.holds = true → Holds ℓ cache phase → Section ℓ cache i phase

/-- A thread changes the cache of its lane, which no other holds. -/
theorem Inv.sets (h : Inv site quiet s) {cache : Cache S ι}
    (hg : CacheGrows (s.caches (site.lane i)) cache)
    (halone : ∀ j, (s.caches (site.lane i)).lock = some j → j = i)
    (hok : CacheOk (site.lane i) s.used.length cache)
    (hsection : Section (site.lane i) cache i call.phase)
    (hcall : CallOk site quiet (s.setCache (site.lane i) cache) (site.lane i) call) :
    Inv site quiet ((s.setCache (site.lane i) cache).setCall i call) := by
  have hself : (s.setCache (site.lane i) cache).caches (site.lane i) = cache := setCache_self
  have hother : ∀ ℓ, ℓ ≠ site.lane i → (s.setCache (site.lane i) cache).caches ℓ = s.caches ℓ :=
    fun _ hℓ => setCache_of_ne hℓ
  have hgrows : Grows s (s.setCache (site.lane i) cache) := grows_setCache hg
  -- nobody else is in the section of this lane
  have hout : ∀ j, j ≠ i → site.lane j = site.lane i → (s.calls j).phase.holds = false := by
    intro j hj hlane
    by_contra hholds
    have hlock := h.lock j (Bool.eq_true_of_not_eq_false hholds)
    rw [hlane] at hlock
    exact hj (halone j hlock)
  refine ⟨h.used, fun ℓ => ?_, fun j hj => ?_, fun j => ?_⟩
  · by_cases hℓ : ℓ = site.lane i
    · subst hℓ
      refine ⟨?_, fun hfree => ?_, fun j hj => ?_⟩
      · exact hself.symm ▸ hok
      · change ((s.setCache (site.lane i) cache).caches (site.lane i)).lock = none at hfree
        change Settled _ ((s.setCache (site.lane i) cache).caches (site.lane i))
        rw [hself] at hfree ⊢
        cases hsection with
        | free _ hsettled _ => exact hsettled
        | held hlock _ _ => simp [hfree] at hlock
      · change ((s.setCache (site.lane i) cache).caches (site.lane i)).lock = some j at hj
        change _ ∧ _ ∧ Holds _ ((s.setCache (site.lane i) cache).caches (site.lane i)) _
        rw [hself] at hj ⊢
        cases hsection with
        | free hlock _ _ => simp [hlock] at hj
        | held hlock hholds hcache =>
          obtain rfl : i = j := Option.some.inj (hlock.symm.trans hj)
          rw [setCall_self]
          exact ⟨rfl, hholds, hcache⟩
    · have hlane := h.lanes ℓ
      refine ⟨?_, fun hfree => ?_, fun j hj => ?_⟩
      · exact (hother ℓ hℓ).symm ▸ hlane.toCacheOk
      · exact (hother ℓ hℓ).symm ▸ hlane.free ((hother ℓ hℓ) ▸ hfree)
      · obtain ⟨hj', hholds, hheld⟩ := hlane.held j ((hother ℓ hℓ) ▸ hj)
        have hji : j ≠ i := by
          rintro rfl
          exact hℓ hj'.symm
        rw [setCall_of_ne hji]
        exact ⟨hj', hholds, (hother ℓ hℓ).symm ▸ hheld⟩
  · by_cases hji : j = i
    · subst hji
      rw [setCall_self] at hj
      change ((s.setCache (site.lane j) cache).caches (site.lane j)).lock = some j
      rw [hself]
      cases hsection with
      | free _ _ hholds => simp [hj] at hholds
      | held hlock _ _ => exact hlock
    · rw [setCall_of_ne hji] at hj
      have hj : (s.calls j).phase.holds = true := hj
      have hlane : site.lane j ≠ site.lane i := by
        intro hlane
        simp [hout j hji hlane] at hj
      change ((s.setCache (site.lane i) cache).caches (site.lane j)).lock = some j
      rw [hother _ hlane]
      exact h.lock j hj
  · by_cases hji : j = i
    · subst hji
      rw [setCall_self]
      exact hcall.setCall
    · rw [setCall_of_ne hji]
      exact ((h.calls j).mono hgrows (h.lanes _).toCacheOk).setCall

/-! ## One step of a thread -/

omit [DecidableEq S] [DecidableEq ι] in
theorem fetchChecked_eq_some {answers : Text → Answer} {snapshot : Snapshot}
    (h : fetchChecked site answers = some snapshot) :
    snapshot.Covers site.entries ∧ site.checkTexts snapshot.texts = [] := by
  unfold fetchChecked at h
  split at h
  · next fetched hfetch =>
    split at h
    · next hchecked =>
      cases h
      exact ⟨covers_of_fetchSnapshot hfetch, hchecked⟩
    · cases h
  · cases h

omit [DecidableEq S] [DecidableEq ι] in
theorem grows_use (s : State S ι) (snapshot : Snapshot) : Grows s (s.use snapshot) :=
  ⟨List.prefix_append _ _, le_rfl, fun _ => .refl _⟩

omit [DecidableEq ι] in
theorem Inv.uses (h : Inv site quiet s) {snapshot : Snapshot}
    (hsnapshot : snapshot.Covers site.entries ∧ site.checkTexts snapshot.texts = []) :
    Inv site quiet (s.use snapshot) := by
  apply h.frames (grows_use s snapshot) rfl rfl
  intro snapshot' hmem
  rcases List.mem_append.1 hmem with hmem | hmem
  · exact h.used snapshot' hmem
  · rw [List.mem_singleton.1 hmem]
    exact hsnapshot

/-- What `_snapshot()` does, in a call that finds some snapshot `n` in use or puts it in use. -/
structure Reads (s t : State S ι) (n : ℕ) : Prop where
  grows : Grows s t
  caches : t.caches = s.caches
  calls : t.calls = s.calls
  lt : n < t.used.length
  last : s.used.length ≤ n + 1

omit [DecidableEq ι] in
theorem Inv.reads (h : Inv site quiet s) {answers : Text → Answer}
    (hread : s.read site answers = some (t, n)) : Inv site quiet t ∧ Reads s t n := by
  unfold State.read at hread
  split at hread
  · next hnone =>
    obtain ⟨snapshot, hfetch, heq⟩ := Option.map_eq_some_iff.1 hread
    cases heq
    refine ⟨h.uses (fetchChecked_eq_some hfetch), grows_use s snapshot, rfl, rfl, ?_, ?_⟩
    · simp [State.use]
    · simp [hnone]
  · next first rest hsome =>
    cases hread
    refine ⟨h, .refl _, rfl, rfl, ?_, ?_⟩
    · simp [hsome]
    · simp [hsome]

omit [DecidableEq ι] in
theorem CallOk.goes (h : CallOk site quiet s ℓ call) {phase : Phase}
    (hasked : phase.hasAsked = true → call.phase.hasAsked = true)
    (hsaw : Saw site quiet s ℓ { call with phase := phase }) :
    CallOk site quiet s ℓ { call with phase := phase } :=
  ⟨h.began, fun hask => h.asked (hasked hask), h.beside, hsaw⟩

/-- The step of a thread that stays out of the section. -/
theorem Inv.goesOut (h : Inv site quiet s) {phase : Phase} (hout : (s.calls i).phase.holds = false)
    (hphase : phase.holds = false)
    (hasked : phase.hasAsked = true → (s.calls i).phase.hasAsked = true)
    (hsaw : Saw site quiet s (site.lane i) { s.calls i with phase := phase }) :
    Inv site quiet (s.setCall i { s.calls i with phase := phase }) := by
  apply h.goes (hphase.trans hout.symm)
  · intro hholds
    exact absurd hholds (hphase ▸ Bool.false_ne_true)
  · exact (h.calls i).goes hasked hsaw

/-- In `refresh`, until `prompts` is read. -/
theorem Inv.refreshes (h : Inv site quiet s) {replies : Replies}
    (hphase : match (s.calls i).phase with
      | .refreshing | .fetched _ | .checked _ | .refreshed => True
      | _ => False)
    (ha : advance site s i replies (s.calls i) = some (t, call)) : Inv site quiet (t.setCall i call) := by
  have hsaw := (h.calls i).saw
  have hout : (s.calls i).phase.holds = false := by
    split at hphase <;> simp_all [Phase.holds]
  cases hp : (s.calls i).phase with
  | refreshing =>
    simp only [advance, hp] at ha
    split at ha
    · next snapshot hfetch =>
      cases ha
      exact h.goesOut hout rfl (fun hask => by cases hask) (covers_of_fetchSnapshot hfetch)
    · cases ha
      exact h.goesOut hout rfl (fun hask => by cases hask) trivial
  | fetched snapshot =>
    simp only [Saw, hp] at hsaw
    simp only [advance, hp] at ha
    split at ha
    · cases ha
      exact h.goesOut hout rfl (fun hask => by cases hask) trivial
    · split at ha
      · next hchecked =>
        cases ha
        exact h.goesOut hout rfl (fun hask => by cases hask) ⟨hsaw, hchecked⟩
      · cases ha
        exact h.goesOut hout rfl (fun hask => by cases hask) trivial
  | checked snapshot =>
    simp only [Saw, hp] at hsaw
    simp only [advance, hp] at ha
    split at ha
    · cases ha
      exact h.goesOut hout rfl (fun hask => by cases hask) trivial
    · cases ha
      exact (h.uses hsaw).goesOut hout rfl (fun hask => by cases hask) trivial
  | refreshed =>
    simp only [advance, hp] at ha
    split at ha
    · next s' n hread =>
      cases ha
      obtain ⟨h', hr⟩ := h.reads hread
      have hcall := h'.calls i
      apply h'.goes
      · rw [hr.calls, hp]
        rfl
      · intro hholds
        cases hholds
      · rw [hr.calls] at hcall
        exact ⟨hcall.began, fun _ => hr.lt, hcall.beside, trivial⟩
    · cases ha
      exact h.goesOut hout rfl (fun hask => by cases hask) trivial
  | _ => simp [hp] at hphase

omit [DecidableEq ι] in
theorem isStale_earlier {began now : ℕ} (hle : began ≤ now) {catalog : Option (Catalog S)}
    (h : isStale site now catalog = false) : isStale site began catalog = false := by
  cases catalog with
  | none => rfl
  | some catalog =>
    simp only [isStale, Bool.or_eq_false_iff, Bool.and_eq_false_iff, Bool.not_eq_false',
      decide_eq_false_iff_not, not_le] at h ⊢
    exact ⟨h.1, h.2.imp_right fun hlt => by omega⟩

omit [DecidableEq ι] in
/-- Who finds the catalog fresh, and after it the graph, finds no graph that was due. -/
theorem Inv.graphNotDue (h : Inv site quiet s) (i : ι)
    (hsome : (s.caches (site.lane i)).agent.isSome)
    (hfresh : isStale site s.now (s.agentCatalog (site.lane i)) = false)
    (hℓ : site.lane i = .rejection) :
    ∃ n, (s.caches (site.lane i)).agent = some n ∧
      NotDue site (s.caches (site.lane i)) (s.calls i) n := by
  have hcall := h.calls i
  cases hcatalog : (s.caches (site.lane i)).agentCatalog with
  | none =>
    obtain ⟨n, hn⟩ := Option.isSome_iff_exists.1 hsome
    refine ⟨n, hn, fun k hk => ?_⟩
    obtain ⟨k', hk', -⟩ := hcall.beside k hk
    simp [hcatalog] at hk'
  | some k' =>
    obtain ⟨n, hn, hle⟩ := (h.lanes (site.lane i)).catalogFirst hℓ k' hcatalog
    refine ⟨n, hn, fun k hk => ?_⟩
    obtain ⟨k'', hk'', hle'⟩ := hcall.beside k hk
    obtain rfl : k' = k'' := Option.some.inj (hcatalog.symm.trans hk'')
    refine ⟨hle'.trans hle, fun hkn build hbuild => isStale_earlier hcall.began ?_⟩
    obtain rfl : k = k' := by omega
    rw [State.agentCatalog, hcatalog, Option.bind_some, hbuild] at hfresh
    exact hfresh

omit [DecidableEq ι] in
/-- The revision beside the graph is of a build that has been made. -/
theorem Inv.agentPrompts_eq (h : Inv site quiet s)
    (hm : (s.caches ℓ).agentPrompts = some m) :
    ∃ build, (s.caches ℓ).builds[m]? = some build ∧
      s.agentPrompts site ℓ = s.revision site build.snapshot := by
  obtain ⟨n, hn, hle⟩ := (h.lanes ℓ).prompts m hm
  have hlt := hle.trans_lt ((h.lanes ℓ).agent n hn)
  refine ⟨_, List.getElem?_eq_getElem hlt, ?_⟩
  rw [State.agentPrompts, hm, Option.bind_some, List.getElem?_eq_getElem hlt, Option.bind_some]

/-- On the path without the lock. -/
theorem Inv.looks (h : Inv site quiet s) {replies : Replies}
    (hphase : match (s.calls i).phase with
      | .asked | .agentSeen | .catalogFresh _ | .promptsMatch _ => True
      | _ => False)
    (ha : advance site s i replies (s.calls i) = some (t, call)) : Inv site quiet (t.setCall i call) := by
  have hsaw := (h.calls i).saw
  have hlane := h.lanes (site.lane i)
  have hout : (s.calls i).phase.holds = false := by
    split at hphase <;> simp_all [Phase.holds]
  have hasked : (s.calls i).phase.hasAsked = true := by
    split at hphase <;> simp_all [Phase.hasAsked]
  cases hp : (s.calls i).phase with
  | asked =>
    simp only [advance, hp] at ha
    split at ha
    · next hsome =>
      cases ha
      exact h.goesOut hout rfl (fun _ => hasked) hsome
    · cases ha
      exact h.goesOut hout rfl (fun _ => hasked) trivial
  | agentSeen =>
    simp only [Saw, hp] at hsaw
    simp only [advance, hp] at ha
    split at ha
    · cases ha
      exact h.goesOut hout rfl (fun _ => hasked) trivial
    · next hfresh =>
      cases ha
      exact h.goesOut hout rfl (fun _ => hasked)
        (h.graphNotDue i hsaw (Bool.eq_false_of_not_eq_true hfresh))
  | catalogFresh k =>
    simp only [Saw, hp] at hsaw
    simp only [advance, hp] at ha
    split at ha
    · next n hn =>
      split at ha
      · next heq =>
        cases ha
        obtain ⟨build, hbuild, hrevision⟩ := h.agentPrompts_eq hn
        exact h.goesOut hout rfl (fun _ => hasked)
          ⟨hsaw, hlane.prompts n hn, build, hbuild, hrevision.symm.trans heq⟩
      · cases ha
        exact h.goesOut hout rfl (fun _ => hasked) trivial
    · cases ha
      exact h.goesOut hout rfl (fun _ => hasked) trivial
  | promptsMatch m =>
    simp only [Saw, hp] at hsaw
    simp only [advance, hp] at ha
    obtain ⟨n, hn, ha⟩ := Option.bind_eq_some_iff.1 ha
    cases ha
    obtain ⟨hdue, ⟨n', hn', hle⟩, earlier, hearlier, heq⟩ := hsaw
    obtain rfl : n = n' := Option.some.inj (hn.symm.trans hn')
    have hlt := hlane.agent n hn
    apply h.goesOut hout rfl (fun _ => hasked)
    refine ⟨⟨⟨_, List.getElem?_eq_getElem hlt, .inr ⟨m, earlier, hle, hearlier, heq⟩⟩,
      fun hℓ => ?_⟩, .inl hn⟩
    obtain ⟨n', hn', hdue⟩ := hdue hℓ
    obtain rfl : n = n' := Option.some.inj (hn.symm.trans hn')
    exact hdue
  | _ => simp [hp] at hphase

omit [DecidableEq S] [DecidableEq ι] in
theorem Cache.grows_lock (cache : Cache S ι) (lock : Option ι) :
    CacheGrows cache { cache with lock := lock } :=
  ⟨List.prefix_rfl, fun n h => ⟨n, h, le_rfl⟩, fun n h => ⟨n, h, le_rfl⟩, fun _ h => h⟩

omit [DecidableEq S] [DecidableEq ι] in
theorem CacheOk.withLock {used : ℕ} {cache : Cache S ι} (h : CacheOk ℓ used cache)
    (lock : Option ι) : CacheOk ℓ used { cache with lock := lock } :=
  ⟨h.agent, h.catalog, h.prompts, h.catalogFirst, h.remembered, h.used, h.ordered⟩

omit [DecidableEq S] [DecidableEq ι] in
theorem Settled.withLock {cache : Cache S ι} (h : Settled ℓ cache) (lock : Option ι) :
    Settled ℓ { cache with lock := lock } := ⟨h.prompts, h.catalog, h.remembered⟩

omit [DecidableEq ι] in
/-- The lock is taken or left: what threads saw stays. -/
theorem CallOk.withLock (h : CallOk site quiet s ℓ call) (lock : Option ι) :
    CallOk site quiet (s.setCache ℓ { s.caches ℓ with lock := lock }) ℓ call := by
  have hself : (s.setCache ℓ { s.caches ℓ with lock := lock }).caches ℓ =
      { s.caches ℓ with lock := lock } := setCache_self
  refine ⟨h.began, h.asked, fun k hk => hself.symm ▸ h.beside k hk, ?_⟩
  have hsaw := h.saw
  unfold Saw Revised at hsaw ⊢
  rw [hself]
  exact hsaw

omit [DecidableEq ι] in
/-- Who is in the section holds its lock. -/
theorem Inv.inside (h : Inv site quiet s) (hin : (s.calls i).phase.holds = true) :
    (∀ j, (s.caches (site.lane i)).lock = some j → j = i) ∧
      Holds (site.lane i) (s.caches (site.lane i)) (s.calls i).phase := by
  have hlock := h.lock i hin
  refine ⟨fun j hj => (Option.some.inj (hlock.symm.trans hj)).symm, ?_⟩
  exact ((h.lanes (site.lane i)).held i hlock).2.2

/-- A thread that is in the section goes on in it. -/
theorem Inv.goesIn (h : Inv site quiet s) {phase : Phase} (hin : (s.calls i).phase.holds = true)
    (hphase : phase.holds = true)
    (hcache : Holds (site.lane i) (s.caches (site.lane i)) phase)
    (hasked : phase.hasAsked = true → (s.calls i).phase.hasAsked = true)
    (hsaw : Saw site quiet s (site.lane i) { s.calls i with phase := phase }) :
    Inv site quiet (s.setCall i { s.calls i with phase := phase }) :=
  h.goes (hphase.trans hin.symm) (fun _ => hcache) ((h.calls i).goes hasked hsaw)

/-- A thread leaves the section, the cache settled. -/
theorem Inv.leaves (h : Inv site quiet s) {phase : Phase} (hin : (s.calls i).phase.holds = true)
    (hsettled : Settled (site.lane i) (s.caches (site.lane i))) (hphase : phase.holds = false)
    (hasked : phase.hasAsked = true → (s.calls i).phase.hasAsked = true)
    (hsaw : Saw site quiet s (site.lane i) { s.calls i with phase := phase }) :
    Inv site quiet ((s.setCache (site.lane i) { s.caches (site.lane i) with lock := none }).setCall i
      { s.calls i with phase := phase }) :=
  h.sets ((s.caches (site.lane i)).grows_lock none) (h.inside hin).1
    ((h.lanes (site.lane i)).toCacheOk.withLock none) (.free rfl (hsettled.withLock none) hphase)
    (((h.calls i).goes hasked hsaw).withLock none)

/-- The lock is taken, and what is found under it. -/
theorem Inv.rechecks (h : Inv site quiet s) {replies : Replies}
    (hphase : match (s.calls i).phase with
      | .waiting | .holding | .rechecked | .pinning => True
      | _ => False)
    (ha : advance site s i replies (s.calls i) = some (t, call)) : Inv site quiet (t.setCall i call) := by
  have hcall := h.calls i
  have hsaw := hcall.saw
  have hlane := h.lanes (site.lane i)
  have hasked : (s.calls i).phase.hasAsked = true := by
    split at hphase <;> simp_all [Phase.hasAsked]
  cases hp : (s.calls i).phase with
  | waiting =>
    simp only [advance, hp] at ha
    split at ha
    · next hfree =>
      cases ha
      have hcall' : CallOk site quiet s (site.lane i) { s.calls i with phase := .holding } :=
        hcall.goes (fun _ => hasked) trivial
      apply h.sets ((s.caches (site.lane i)).grows_lock (some i))
      · intro j hj
        simp [hfree] at hj
      · exact hlane.toCacheOk.withLock (some i)
      · exact .held rfl rfl ((hlane.free hfree).withLock (some i))
      · exact hcall'.withLock (some i)
    · cases ha
  | holding =>
    have hin : (s.calls i).phase.holds = true := by rw [hp]; rfl
    have hsettled : Settled (site.lane i) (s.caches (site.lane i)) := by
      have hheld := (h.inside hin).2
      rw [hp] at hheld
      exact hheld
    simp only [advance, hp] at ha
    split at ha
    · next hfound =>
      cases ha
      simp only [Bool.and_eq_true, Bool.not_eq_true'] at hfound
      exact h.goesIn hin rfl hsettled (fun _ => hasked) (h.graphNotDue i hfound.1 hfound.2)
    · cases ha
      exact h.goesIn hin rfl hsettled (fun _ => hasked) trivial
  | rechecked =>
    have hin : (s.calls i).phase.holds = true := by rw [hp]; rfl
    have hsettled : Settled (site.lane i) (s.caches (site.lane i)) := by
      have hheld := (h.inside hin).2
      rw [hp] at hheld
      exact hheld
    simp only [Saw, hp] at hsaw
    simp only [advance, hp] at ha
    split at ha
    · next s' q hread =>
      obtain ⟨h', hr⟩ := h.reads hread
      have hsaw' := (h'.calls i).saw
      have hlane' := h'.lanes (site.lane i)
      rw [← hr.calls] at hin hasked ha hp
      rw [← hr.caches] at hsettled ha
      simp only [Saw, hp] at hsaw'
      split at ha
      · next heq =>
        obtain ⟨m, hm, ha⟩ := Option.bind_eq_some_iff.1 ha
        cases ha
        have hasked' : (s.calls i).asked < s.used.length := hcall.asked (by rwa [← hr.calls])
        obtain ⟨build, hbuild, hrevision⟩ := h'.agentPrompts_eq (hsettled.prompts.trans hm)
        apply h'.leaves hin hsettled rfl (fun _ => hasked)
        refine ⟨⟨⟨build, hbuild, .inl ⟨q, ?_, hr.lt, hrevision.symm.trans heq⟩⟩, fun hℓ => ?_⟩,
          .inl hm⟩
        · rw [hr.calls]
          have := hr.last
          show (s.calls i).asked ≤ q
          omega
        · obtain ⟨n', hn', hdue⟩ := hsaw' hℓ
          obtain rfl : m = n' := Option.some.inj (hm.symm.trans hn')
          exact hdue
      · cases ha
        exact h'.goesIn hin rfl hsettled (fun _ => hasked) trivial
    · cases ha
      exact h.leaves hin hsettled rfl (fun hask => by cases hask) trivial
  | pinning =>
    have hin : (s.calls i).phase.holds = true := by rw [hp]; rfl
    have hsettled : Settled (site.lane i) (s.caches (site.lane i)) := by
      have hheld := (h.inside hin).2
      rw [hp] at hheld
      exact hheld
    simp only [advance, hp] at ha
    split at ha
    · next s' q hread =>
      obtain ⟨h', hr⟩ := h.reads hread
      have hasked' : (s.calls i).asked < s.used.length := hcall.asked hasked
      have hlast := hr.last
      rw [← hr.calls] at hin hasked ha
      cases ha
      apply h'.goesIn hin rfl ?_ (fun _ => hasked)
      · refine ⟨hr.lt, ?_⟩
        rw [hr.calls]
        show (s.calls i).asked ≤ q
        omega
      · rw [hr.caches]
        refine ⟨hsettled, fun build hbuild => ?_⟩
        have := hlane.used build hbuild
        omega
    · cases ha
      exact h.leaves hin hsettled rfl (fun hask => by cases hask) trivial
  | _ => simp [hp] at hphase

/-! ## A build -/

/-- Who is in the section changes the cache and stays in it. -/
theorem Inv.setsIn (h : Inv site quiet s) {cache : Cache S ι} {phase : Phase}
    (hin : (s.calls i).phase.holds = true) (hg : CacheGrows (s.caches (site.lane i)) cache)
    (hlock : cache.lock = (s.caches (site.lane i)).lock)
    (hok : CacheOk (site.lane i) s.used.length cache) (hphase : phase.holds = true)
    (hcache : Holds (site.lane i) cache phase)
    (hasked : phase.hasAsked = true → (s.calls i).phase.hasAsked = true)
    (hsaw : Saw site quiet (s.setCache (site.lane i) cache) (site.lane i)
      { s.calls i with phase := phase }) :
    Inv site quiet ((s.setCache (site.lane i) cache).setCall i { s.calls i with phase := phase }) := by
  apply h.sets hg (h.inside hin).1 hok
  · exact .held (hlock.trans (h.lock i hin)) hphase hcache
  · have hcall := (h.calls i).mono (grows_setCache hg) (h.lanes (site.lane i)).toCacheOk
    exact hcall.goes hasked hsaw

omit [DecidableEq ι] in
theorem Inv.lists (h : Inv site quiet s) {replies : Replies} {catalog : Catalog S}
    (hlist : s.currentCatalog site replies = (t, catalog)) :
    Inv site quiet t ∧ t.used = s.used ∧ t.caches = s.caches ∧ t.calls = s.calls := by
  have hframe : ∀ listed, Inv site quiet { s with listed := listed } := fun listed =>
    h.frames ⟨List.prefix_rfl, le_rfl, fun _ => .refl _⟩ rfl rfl h.used
  simp only [State.currentCatalog] at hlist
  split at hlist
  · split at hlist
    · cases hlist
      exact ⟨hframe _, rfl, rfl, rfl⟩
    · cases hlist
      exact ⟨h, rfl, rfl, rfl⟩
  · cases hlist
    exact ⟨hframe _, rfl, rfl, rfl⟩

omit [DecidableEq S] [DecidableEq ι] in
theorem CacheOk.grows_begin {used : ℕ} {cache : Cache S ι} (h : CacheOk ℓ used cache)
    (build : Build S) : CacheGrows cache (cache.begin ℓ build) := by
  cases ℓ with
  | rejection =>
    exact ⟨List.prefix_append _ _, fun n hn => ⟨n, hn, le_rfl⟩, fun n hn => ⟨n, hn, le_rfl⟩,
      fun _ hn => hn⟩
  | dlt =>
    refine ⟨List.prefix_append _ _, fun n hn => ⟨n, hn, le_rfl⟩, fun n hn => ⟨_, rfl, ?_⟩,
      fun _ hn => hn⟩
    exact (h.catalog n hn).le

omit [DecidableEq S] [DecidableEq ι] in
theorem builds_begin (cache : Cache S ι) (ℓ : Lane) (build : Build S) :
    (cache.begin ℓ build).builds = cache.builds ++ [build] := by
  cases ℓ with
  | _ => rfl

omit [DecidableEq S] [DecidableEq ι] in
theorem Settled.begin {cache : Cache S ι} (h : Settled ℓ cache) (build : Build S) :
    Settled ℓ (cache.begin ℓ build) := by
  cases ℓ with
  | rejection => exact ⟨h.prompts, h.catalog, h.remembered⟩
  | dlt => exact ⟨h.prompts, fun hℓ => absurd hℓ Lane.noConfusion, h.remembered⟩

omit [DecidableEq S] [DecidableEq ι] in
theorem CacheOk.begin {used : ℕ} {cache : Cache S ι} (h : CacheOk ℓ used cache)
    {build : Build S} (hused : build.snapshot < used)
    (hlast : ∀ earlier ∈ cache.builds, earlier.snapshot ≤ build.snapshot) :
    CacheOk ℓ used (cache.begin ℓ build) := by
  have hlength : (cache.begin ℓ build).builds.length = cache.builds.length + 1 := by
    rw [builds_begin, List.length_append, List.length_singleton]
  have hagent : (cache.begin ℓ build).agent = cache.agent := by cases ℓ with | _ => rfl
  have hprompts : (cache.begin ℓ build).agentPrompts = cache.agentPrompts := by
    cases ℓ with | _ => rfl
  have hbuiltFrom : (cache.begin ℓ build).builtFrom = cache.builtFrom := by
    cases ℓ with | _ => rfl
  refine ⟨fun n hn => ?_, fun n hn => ?_, fun n hn => ?_, fun hℓ n hn => ?_, fun n q hn => ?_,
    fun b hb => ?_, ?_⟩
  · rw [hagent] at hn
    have := h.agent n hn
    omega
  · cases ℓ with
    | rejection =>
      have := h.catalog n hn
      omega
    | dlt =>
      cases hn
      omega
  · rw [hprompts] at hn
    rw [NotAfter, hagent]
    exact h.prompts n hn
  · subst hℓ
    exact h.catalogFirst rfl n hn
  · rw [hbuiltFrom] at hn
    obtain ⟨b, hb, hq⟩ := h.remembered n q hn
    rw [builds_begin]
    exact ⟨b, getElem?_of_prefix (List.prefix_append _ _) hb, hq⟩
  · rw [builds_begin] at hb
    rcases List.mem_append.1 hb with hb | hb
    · exact h.used b hb
    · rw [List.mem_singleton.1 hb]
      exact hused
  · rw [builds_begin, List.pairwise_append]
    refine ⟨h.ordered, List.pairwise_singleton _ _, fun earlier hearlier b hb => ?_⟩
    rw [List.mem_singleton.1 hb]
    exact hlast earlier hearlier

/-- The graph is built and published, one variable after the other. -/
theorem Inv.builds (h : Inv site quiet s) {replies : Replies}
    (hphase : match (s.calls i).phase with
      | .pinned _ | .building _ | .agentSet _ | .catalogSet _ | .promptsSet _ => True
      | _ => False)
    (ha : advance site s i replies (s.calls i) = some (t, call)) : Inv site quiet (t.setCall i call) := by
  have hcall := h.calls i
  have hsaw := hcall.saw
  have hlane := h.lanes (site.lane i)
  have hasked : (s.calls i).phase.hasAsked = true := by
    split at hphase <;> simp_all [Phase.hasAsked]
  have hin : (s.calls i).phase.holds = true := by
    split at hphase <;> simp_all [Phase.holds]
  have hheld := (h.inside hin).2
  cases hp : (s.calls i).phase with
  | pinned q =>
    simp only [Saw, hp] at hsaw
    simp only [hp] at hheld
    simp only [advance, hp] at ha
    generalize hlist : s.currentCatalog site replies = listed at ha
    obtain ⟨s', catalog⟩ := listed
    cases ha
    obtain ⟨h', hused, hcaches, hcalls⟩ := h.lists hlist
    have hbeside := (h'.calls i).besideLt (h'.lanes (site.lane i)).toCacheOk
    obtain ⟨hsettled, hlast⟩ := hheld
    rw [← hcalls] at hin hasked hsaw ⊢
    rw [← hcaches] at hsettled hlast ⊢
    rw [← hused] at hsaw
    have hok := (h'.lanes (site.lane i)).toCacheOk
    have hnew : ((s'.caches (site.lane i)).begin (site.lane i) ⟨catalog, q⟩).builds =
      (s'.caches (site.lane i)).builds ++ [⟨catalog, q⟩] := builds_begin _ _ _
    apply h'.setsIn hin (hok.grows_begin ⟨catalog, q⟩) ?_ (hok.begin hsaw.1 hlast) rfl ?_
      (fun _ => hasked)
    · refine ⟨⟨⟨catalog, q⟩, ?_, hsaw.2⟩, fun k hk => ?_⟩
      · rw [setCache_self, hnew, List.getElem?_concat_length]
      · have := hbeside k hk
        exact ⟨this.le, fun hkn => by omega⟩
    · cases site.lane i with | _ => rfl
    · refine ⟨hsettled.begin _, ?_⟩
      rw [hnew, List.length_append, List.length_singleton]
  | building n =>
    simp only [Saw, hp] at hsaw
    simp only [hp] at hheld
    simp only [advance, hp] at ha
    cases ha
    obtain ⟨hsettled, hlength⟩ := hheld
    have hle : ∀ k, k < (s.caches (site.lane i)).builds.length → k ≤ n := fun k hk => by omega
    have hg : CacheGrows (s.caches (site.lane i))
        { s.caches (site.lane i) with agent := some n } :=
      ⟨List.prefix_rfl, fun k hk => ⟨n, rfl, hle k (hlane.agent k hk)⟩,
        fun k hk => ⟨k, hk, le_rfl⟩, fun k hk => .inr (hk.elim (hsettled.remembered k) id)⟩
    apply h.setsIn hin hg rfl ?_ rfl ?_ (fun _ => hasked)
    · rw [Saw, setCache_self]
      exact hsaw
    · refine ⟨fun k hk => ?_, hlane.catalog, fun k hk => ?_, fun _ k hk => ?_, hlane.remembered,
        hlane.used, hlane.ordered⟩
      · cases hk
        show n < (s.caches (site.lane i)).builds.length
        omega
      · obtain ⟨n', hn', hkn⟩ := hlane.prompts k hk
        exact ⟨n, rfl, hkn.trans (hle n' (hlane.agent n' hn'))⟩
      · exact ⟨n, rfl, hle k (hlane.catalog k hk)⟩
    · exact ⟨hlength, rfl⟩
  | agentSet n =>
    simp only [Saw, hp] at hsaw
    simp only [hp] at hheld
    simp only [advance, hp] at ha
    obtain ⟨hlength, hagent⟩ := hheld
    split at ha
    · next hℓ =>
      cases ha
      have hg : CacheGrows (s.caches (site.lane i))
          { s.caches (site.lane i) with agentCatalog := some n } :=
        ⟨List.prefix_rfl, fun k hk => ⟨k, hk, le_rfl⟩, fun k hk => ⟨n, rfl, by
          have := hlane.catalog k hk
          omega⟩, fun _ hk => hk⟩
      apply h.setsIn hin hg rfl ?_ rfl ?_ (fun _ => hasked)
      · rw [Saw, setCache_self]
        exact hsaw
      · refine ⟨hlane.agent, fun k hk => ?_, hlane.prompts, fun _ k hk => ?_, hlane.remembered,
          hlane.used, hlane.ordered⟩
        · cases hk
          exact hlane.agent n hagent
        · cases hk
          exact ⟨n, hagent, le_rfl⟩
      · exact ⟨hlength, hagent, fun _ => rfl⟩
    · next hℓ =>
      cases ha
      apply h.goesIn hin rfl ?_ (fun _ => hasked)
      · exact hsaw
      · refine ⟨hlength, hagent, fun hℓ' => ?_⟩
        rw [hℓ] at hℓ'
        cases hℓ'
  | catalogSet n =>
    simp only [Saw, hp] at hsaw
    simp only [hp] at hheld
    simp only [advance, hp] at ha
    cases ha
    obtain ⟨hlength, hagent, hcatalog⟩ := hheld
    have hg : CacheGrows (s.caches (site.lane i))
        { s.caches (site.lane i) with agentPrompts := some n } :=
      ⟨List.prefix_rfl, fun k hk => ⟨k, hk, le_rfl⟩, fun k hk => ⟨k, hk, le_rfl⟩, fun _ hk => hk⟩
    apply h.setsIn hin hg rfl ?_ rfl ?_ (fun _ => hasked)
    · rw [Saw, setCache_self]
      exact hsaw
    · refine ⟨hlane.agent, hlane.catalog, fun k hk => ?_, hlane.catalogFirst, hlane.remembered,
        hlane.used, hlane.ordered⟩
      cases hk
      exact ⟨n, hagent, le_rfl⟩
    · exact ⟨hlength, hagent, hcatalog, rfl⟩
  | promptsSet n =>
    simp only [Saw, hp] at hsaw
    simp only [hp] at hheld
    simp only [advance, hp] at ha
    cases ha
    obtain ⟨hlength, hagent, hcatalog, hprompts⟩ := hheld
    obtain ⟨⟨build, hbuild, hle⟩, hdue⟩ := hsaw
    have hg : CacheGrows (s.caches (site.lane i)) { s.caches (site.lane i) with
        builtFrom := Function.update (s.caches (site.lane i)).builtFrom n
          ((s.caches (site.lane i)).builds[n]?.map Build.snapshot)
        lock := none } := by
      refine ⟨List.prefix_rfl, fun k hk => ⟨k, hk, le_rfl⟩, fun k hk => ⟨k, hk, le_rfl⟩,
        fun k hk => hk.imp_right fun hk => ?_⟩
      change Function.update (s.caches (site.lane i)).builtFrom n _ k ≠ none
      by_cases hkn : k = n
      · subst hkn
        rw [Function.update_self, hbuild]
        exact Option.some_ne_none _
      · rwa [Function.update_of_ne hkn]
    apply h.sets hg (h.inside hin).1
    · refine ⟨hlane.agent, hlane.catalog, hlane.prompts, hlane.catalogFirst, fun k q hk => ?_,
        hlane.used, hlane.ordered⟩
      by_cases hkn : k = n
      · subst hkn
        change Function.update (s.caches (site.lane i)).builtFrom k _ k = some q at hk
        rw [Function.update_self] at hk
        exact Option.map_eq_some_iff.1 hk
      · change Function.update (s.caches (site.lane i)).builtFrom n _ k = some q at hk
        rw [Function.update_of_ne hkn] at hk
        exact hlane.remembered k q hk
    · refine .free rfl ⟨hprompts.trans hagent.symm, fun hℓ => (hcatalog hℓ).trans hagent.symm,
        fun k hk => ?_⟩ rfl
      obtain rfl : n = k := Option.some.inj (hagent.symm.trans hk)
      change Function.update (s.caches (site.lane i)).builtFrom n _ n ≠ none
      rw [Function.update_self, hbuild]
      exact Option.some_ne_none _
    · have hcall' := hcall.mono (grows_setCache hg) hlane.toCacheOk
      refine hcall'.goes (fun _ => hasked) ⟨⟨⟨build, ?_, .inl ⟨build.snapshot, hle, ?_, rfl⟩⟩,
        fun _ => ?_⟩, .inl ?_⟩
      · rw [setCache_self]
        exact hbuild
      · exact hlane.snapshot hbuild
      · rw [setCache_self]
        exact hdue
      · rw [setCache_self]
        exact hagent
  | _ => simp [hp] at hphase

/-! ## Every run -/

/-- The thread has published the graph and not yet remembered it. -/
def Phase.publishes : Phase → Option ℕ
  | .agentSet n | .catalogSet n | .promptsSet n => some n
  | _ => none

/-- No run begins while its graph is being published. -/
def Quiet (site : Site S ι) (s : State S ι) : Action ι → Prop
  | .next i _ => ∀ n, (s.calls i).phase = .returned n →
    ∀ j, site.lane j = site.lane i → (s.calls j).phase.publishes ≠ some n
  | _ => True

omit [DecidableEq ι] in
/-- A graph that a thread has and that is not remembered is being published. -/
theorem Inv.publishing (h : Inv site quiet s) (hkept : Kept (s.caches ℓ) n)
    (hnone : (s.caches ℓ).builtFrom n = none) :
    ∃ j, site.lane j = ℓ ∧ (s.calls j).phase.publishes = some n := by
  have hlane := h.lanes ℓ
  have hagent : (s.caches ℓ).agent = some n := hkept.resolve_right fun hne => hne hnone
  have hunsettled : ¬ Settled ℓ (s.caches ℓ) := fun h => h.remembered n hagent hnone
  cases hlock : (s.caches ℓ).lock with
  | none => exact absurd (hlane.free hlock) hunsettled
  | some j =>
    obtain ⟨hj, -, hheld⟩ := hlane.held j hlock
    refine ⟨j, hj, ?_⟩
    cases hp : (s.calls j).phase with
    | agentSet m | catalogSet m | promptsSet m =>
      simp only [hp] at hheld
      obtain rfl : m = n := by
        have hm : (s.caches ℓ).agent = some m := by first | exact hheld.2 | exact hheld.2.1
        exact Option.some.inj (hm.symm.trans hagent)
      rfl
    | pinned | building =>
      simp only [hp] at hheld
      exact absurd hheld.1 hunsettled
    | _ =>
      simp only [hp] at hheld
      exact absurd hheld hunsettled

/-- A graph in hand is run, and the run ends. -/
theorem Inv.runs (h : Inv site quiet s) {replies : Replies}
    (hquiet : quiet → Quiet site s (.next i replies))
    (hphase : match (s.calls i).phase with
      | .returned _ | .running _ _ => True
      | _ => False)
    (ha : advance site s i replies (s.calls i) = some (t, call)) : Inv site quiet (t.setCall i call) := by
  have hsaw := (h.calls i).saw
  have hlane := h.lanes (site.lane i)
  cases hp : (s.calls i).phase with
  | returned n =>
    have hasked : (s.calls i).phase.hasAsked = true := by rw [hp]; rfl
    have hout : (s.calls i).phase.holds = false := by rw [hp]; rfl
    simp only [Saw, hp] at hsaw
    simp only [advance, hp] at ha
    split at ha
    · next q hq =>
      cases ha
      obtain ⟨build, hbuild, hq⟩ := hlane.remembered n q hq
      apply h.goesOut hout rfl (fun _ => hasked)
      exact ⟨hsaw.1, hq ▸ hlane.snapshot hbuild, fun _ => ⟨build, hbuild, hq⟩⟩
    · next hnone =>
      split at ha
      · next s' q hread =>
        obtain ⟨h', hr⟩ := h.reads hread
        obtain ⟨j, hj, hpublishes⟩ := h.publishing hsaw.2 hnone
        have hloud : ¬ quiet := fun hq => hquiet hq n hp j hj hpublishes
        have hsaw' := (h'.calls i).saw
        rw [← hr.calls] at hout hasked hp ha
        cases ha
        simp only [Saw, hp] at hsaw'
        exact h'.goesOut hout rfl (fun _ => hasked)
          ⟨hsaw'.1, hr.lt, fun hq => absurd hq hloud⟩
      · cases ha
        exact h.goesOut hout rfl (fun hask => by cases hask) trivial
  | running n q =>
    have hasked : (s.calls i).phase.hasAsked = true := by rw [hp]; rfl
    have hout : (s.calls i).phase.holds = false := by rw [hp]; rfl
    simp only [advance, hp] at ha
    cases ha
    exact h.goesOut hout rfl (fun _ => hasked) trivial
  | _ => simp [hp] at hphase

theorem Inv.advances (h : Inv site quiet s) {replies : Replies}
    (hquiet : quiet → Quiet site s (.next i replies))
    (ha : advance site s i replies (s.calls i) = some (t, call)) : Inv site quiet (t.setCall i call) := by
  cases hp : (s.calls i).phase with
  | refreshing | fetched | checked | refreshed => exact h.refreshes (by rw [hp]; trivial) ha
  | asked | agentSeen | catalogFresh | promptsMatch => exact h.looks (by rw [hp]; trivial) ha
  | waiting | holding | rechecked | pinning => exact h.rechecks (by rw [hp]; trivial) ha
  | pinned | building | agentSet | catalogSet | promptsSet =>
    exact h.builds (by rw [hp]; trivial) ha
  | returned | running => exact h.runs hquiet (by rw [hp]; trivial) ha
  | idle | ended | raised => simp [advance, hp] at ha

omit [DecidableEq ι] in
theorem AtStart.inv (h : AtStart s) : Inv site quiet s := by
  obtain ⟨hused, -, hcalls, hcaches⟩ := h
  refine ⟨fun snapshot hmem => ?_, fun ℓ => ?_, fun i hi => ?_, fun i => ?_⟩
  · simp [hused] at hmem
  · refine ⟨⟨?_, ?_, ?_, ?_, ?_, ?_, ?_⟩, fun _ => ⟨?_, ?_, ?_⟩, ?_⟩ <;> simp [hcaches]
  · simp [hcalls, Phase.holds] at hi
  · rw [hcalls]
    exact ⟨Nat.zero_le _, (absurd · Bool.false_ne_true), fun _ => (absurd · (Option.some_ne_none _).symm), trivial⟩

/-- **The step.** -/
theorem Inv.step (h : Inv site quiet s) {a : Action ι} (hquiet : quiet → Quiet site s a)
    (hstep : step site s a = some t) :
    Inv site quiet t := by
  cases a with
  | activate answers =>
    obtain ⟨snapshot, hfetch, rfl⟩ := Option.map_eq_some_iff.1 hstep
    exact h.uses (fetchChecked_eq_some hfetch)
  | tick d =>
    cases hstep
    exact h.frames ⟨List.prefix_rfl, Nat.le_add_right _ _, fun _ => .refl _⟩ rfl rfl h.used
  | call i =>
    simp only [Prompts.step] at hstep
    split at hstep
    · next hp =>
      cases hstep
      apply h.goes
      · rw [hp]
        rfl
      · intro hholds
        cases hholds
      · exact ⟨le_rfl, (absurd · Bool.false_ne_true), fun k hk => ⟨k, hk, le_rfl⟩, trivial⟩
    · cases hstep
  | next i replies =>
    obtain ⟨⟨s', call⟩, ha, rfl⟩ := Option.map_eq_some_iff.1 hstep
    exact h.advances hquiet ha
  | fail i =>
    simp only [Prompts.step] at hstep
    split at hstep
    · next n hp =>
      cases hstep
      have hin : (s.calls i).phase.holds = true := by rw [hp]; rfl
      have hheld := (h.inside hin).2
      rw [hp] at hheld
      exact h.leaves hin hheld.1 rfl (fun hask => by cases hask) trivial
    · cases hstep

theorem reach_inv {C : State S ι → Action ι → Prop} (hs : (graphs site).Reach C s)
    (hquiet : quiet → ∀ s a, C s a → Quiet site s a) : Inv site quiet s :=
  hs.invariant (fun _ => AtStart.inv)
    fun _ _ _ h hc hstep => h.step (fun hq => hquiet hq _ _ hc) hstep

end

end ResidentCrm.Prompts
