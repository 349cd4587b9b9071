import ResidentCrm.Prompts.InUse

/-!
# What a run is given

Every text that a run reads is from one snapshot that passed its checks; it is the one its graph was
built from unless the run began before its graph was remembered. The graph is of a revision that was
in use after the thread asked, and in the rejection lane it was not due for another build. The lane
of dead letters names its catalog before it has a graph: a build that fails there leaves the graph
it was to replace in service until a prompt changes.
-/

namespace ResidentCrm.Prompts

variable {S ι : Type*} [DecidableEq S] [DecidableEq ι] {site : Site S ι} {s t : State S ι} {i : ι}
  {n q : ℕ}

/-- A snapshot that may be in use: every prompt is in it, and its texts pass. -/
def Snapshot.Usable (site : Site S ι) (snapshot : Snapshot) : Prop :=
  snapshot.Covers site.entries ∧ site.checkTexts snapshot.texts = []

omit [DecidableEq ι] in
theorem Inv.usable {quiet : Prop} (h : Inv site quiet s) (hq : q < s.used.length) :
    ∃ snapshot, s.used[q]? = some snapshot ∧ snapshot.Usable site :=
  ⟨_, List.getElem?_eq_getElem hq, h.used _ (List.getElem_mem hq)⟩

omit [DecidableEq ι] in
/-- A run is of a graph that was built, and is pinned to a snapshot. -/
theorem Inv.running {quiet : Prop} (h : Inv site quiet s)
    (hi : (s.calls i).phase = .running n q) :
    Revised site s (site.lane i) (s.calls i).asked n ∧
      (site.lane i = .rejection → NotDue site (s.caches (site.lane i)) (s.calls i) n) ∧
      q < s.used.length ∧
      (quiet → ∃ build, (s.caches (site.lane i)).builds[n]? = some build ∧ build.snapshot = q) := by
  have hsaw := (h.calls i).saw
  simp only [Saw, hi] at hsaw
  exact ⟨hsaw.1.1, hsaw.1.2, hsaw.2.1, hsaw.2.2⟩

/-! ## Runs of a few threads -/

theorem retry_pos : 0 < 10 := Nat.succ_pos 9

/-- A deployment with one prompt. -/
def siteOf {ι : Type} (lane : Lane) : Site Unit ι where
  entries := ["p".toList]
  checkTexts := fun _ => []
  sha256 := id
  servers := [()]
  retry := 10
  retry_pos := retry_pos
  lane := fun _ => lane

def noneCalled {ι : Type} : State Unit ι :=
  ⟨[], none, 0, fun _ => ⟨[], none, none, none, fun _ => none, none⟩, fun _ => { phase := .idle }⟩

theorem noneCalled_start {ι : Type} : AtStart (noneCalled : State Unit ι) :=
  ⟨rfl, rfl, fun _ => rfl, fun _ => rfl⟩

/-- Langfuse has the version of the prompt, and these tool servers do not answer. -/
def published (version : ℕ) (failures : List Text) : Replies :=
  ⟨fun _ => .ok ("text".toList, version), [], failures⟩

/-- Two threads of the rejection lane: the first builds a graph and runs it; then there is a new
version, and the second builds another. -/
def twoVersions : List (Action Bool) :=
  .call false :: List.replicate 14 (.next false (published 1 [])) ++
    .call true :: List.replicate 17 (.next true (published 2 []))

def quietly (s : State Unit Bool) : Action Bool → Bool
  | .next i _ =>
    match (s.calls i).phase with
    | .returned n => [false, true].all fun j => (s.calls j).phase.publishes ≠ some n
    | _ => true
  | _ => true

theorem quiet_of_quietly {lane : Lane} {s : State Unit Bool} {a : Action Bool}
    (h : quietly s a = true) : Quiet (siteOf lane) s a := by
  cases a with
  | next i replies =>
    intro n hn j _
    simp only [quietly, hn, List.all_cons, List.all_nil, Bool.and_true, Bool.and_eq_true,
      decide_eq_true_eq] at h
    cases j with
    | false => exact h.1
    | true => exact h.2
  | _ => trivial

theorem exists_twoVersions : ∃ s : State Unit Bool,
    (graphs (siteOf .rejection)).Reach (Quiet (siteOf .rejection)) s ∧
      (s.calls false).phase = .running 0 0 ∧ (s.calls true).phase = .running 1 1 ∧
      s.used.length = 2 ∧ (s.calls true).beside = some 0 := by
  obtain ⟨s, hs, hp⟩ := (graphs (siteOf .rejection)).exists_reach_runWhere (c := quietly)
    (fun _ _ => quiet_of_quietly) noneCalled_start twoVersions
    (fun s => (s.calls false).phase = .running 0 0 ∧ (s.calls true).phase = .running 1 1 ∧
      s.used.length = 2 ∧ (s.calls true).beside = some 0) (by decide)
  exact ⟨s, hs, of_decide_eq_true hp⟩

/-! ## Every interleaving -/

/-- **Only checked prompts are run on.** In every interleaving what a run reads, and what the agents
of its graph that are built on first use read, is a snapshot with every prompt whose texts pass the
checks. -/
theorem run_reads_checked (hs : (graphs site).Reachable s)
    (hi : (s.calls i).phase = .running n q) :
    ∃ build pinned own, (s.caches (site.lane i)).builds[n]? = some build ∧
      s.used[q]? = some pinned ∧ pinned.Usable site ∧
      s.used[build.snapshot]? = some own ∧ own.Usable site := by
  have hinv : Inv site False s := reach_inv hs fun hfalse => hfalse.elim
  obtain ⟨⟨build, hbuild, -⟩, -, hq, -⟩ := hinv.running hi
  obtain ⟨pinned, hpinned, husable⟩ := hinv.usable hq
  obtain ⟨own, hown, husable'⟩ :=
    hinv.usable ((hinv.lanes (site.lane i)).snapshot hbuild)
  exact ⟨build, pinned, own, hbuild, hpinned, husable, hown, husable'⟩

theorem twoVersions_read_checked : ∃ s : State Unit Bool,
    (graphs (siteOf .rejection)).Reachable s ∧ ∃ build pinned own,
      (s.caches .rejection).builds[1]? = some build ∧ s.used[1]? = some pinned ∧
        pinned.Usable (siteOf .rejection : Site Unit Bool) ∧ s.used[build.snapshot]? = some own ∧
        own.Usable (siteOf .rejection : Site Unit Bool) := by
  obtain ⟨s, hs, -, hi, -⟩ := exists_twoVersions
  exact ⟨s, hs.reachable, run_reads_checked hs.reachable hi⟩

/-- **A packet finishes on the versions it started on.** Where no run begins while its graph is being
published, a run reads every prompt from the snapshot its graph was built from, whatever has been
put in use since. -/
theorem run_reads_own_snapshot (hs : (graphs site).Reach (Quiet site) s)
    (hi : (s.calls i).phase = .running n q) :
    ∃ build snapshot, (s.caches (site.lane i)).builds[n]? = some build ∧ build.snapshot = q ∧
      s.used[q]? = some snapshot ∧ snapshot.Usable site := by
  have hinv : Inv site True s := reach_inv hs fun _ _ _ h => h
  obtain ⟨-, -, hq, hown⟩ := hinv.running hi
  obtain ⟨build, hbuild, heq⟩ := hown trivial
  obtain ⟨snapshot, hsnapshot, husable⟩ := hinv.usable hq
  exact ⟨build, snapshot, hbuild, heq, hsnapshot, husable⟩

theorem twoVersions_read_own : ∃ s : State Unit Bool,
    (graphs (siteOf .rejection)).Reach (Quiet (siteOf .rejection)) s ∧
      (s.calls false).phase = .running 0 0 ∧ s.used.length = 2 ∧
      ∃ build snapshot, (s.caches .rejection).builds[0]? = some build ∧ build.snapshot = 0 ∧
        s.used[0]? = some snapshot ∧ snapshot.Usable (siteOf .rejection : Site Unit Bool) := by
  obtain ⟨s, hs, hi, -, hused, -⟩ := exists_twoVersions
  exact ⟨s, hs, hi, hused, run_reads_own_snapshot hs hi⟩

/-- No revision that was replaced is in use again. -/
def NeverBack (site : Site S ι) (s : State S ι) : Prop :=
  ∀ a b c, a ≤ b → b ≤ c → c < s.used.length →
    s.revision site a = s.revision site c → s.revision site b = s.revision site c

/-- **No graph of replaced prompts.** Where no revision comes back, the graph that a thread runs is
of a revision that was in use after the thread read which one is. -/
theorem run_of_revision_in_use (hs : (graphs site).Reachable s) (hback : NeverBack site s)
    (hi : (s.calls i).phase = .running n q) :
    ∃ build p, (s.caches (site.lane i)).builds[n]? = some build ∧ (s.calls i).asked ≤ p ∧
      p < s.used.length ∧ s.revision site build.snapshot = s.revision site p := by
  have hinv : Inv site False s := reach_inv hs fun hfalse => hfalse.elim
  have hlane := hinv.lanes (site.lane i)
  obtain ⟨⟨build, hbuild, hor⟩, -, -, -⟩ := hinv.running hi
  have hasked : (s.calls i).asked < s.used.length :=
    (hinv.calls i).asked (by rw [hi]; rfl)
  rcases hor with ⟨p, hle, hlt, heq⟩ | ⟨m, earlier, hm, hearlier, heq⟩
  · exact ⟨build, p, hbuild, hle, hlt, heq⟩
  · rcases Nat.lt_or_ge build.snapshot (s.calls i).asked with hlt | hge
    · -- an older snapshot than the one asked for lies between two of one revision
      have hordered : earlier.snapshot ≤ build.snapshot := by
        rcases Nat.lt_or_eq_of_le hm with hm | rfl
        · obtain ⟨hm', rfl⟩ := List.getElem?_eq_some_iff.1 hearlier
          obtain ⟨hn', rfl⟩ := List.getElem?_eq_some_iff.1 hbuild
          exact List.pairwise_iff_getElem.1 hlane.ordered m n hm' hn' hm
        · rw [Option.some.inj (hearlier.symm.trans hbuild)]
      exact ⟨build, (s.calls i).asked, hbuild, le_rfl, hasked,
        hback _ _ _ hordered hlt.le hasked heq⟩
    · exact ⟨build, build.snapshot, hbuild, hge, hlane.snapshot hbuild, rfl⟩

theorem twoVersions_in_use : ∃ s : State Unit Bool,
    (graphs (siteOf .rejection)).Reachable s ∧ NeverBack (siteOf .rejection) s ∧
      ∃ build p, (s.caches .rejection).builds[1]? = some build ∧ (s.calls true).asked ≤ p ∧
        p < s.used.length ∧ s.revision (siteOf .rejection) build.snapshot =
          s.revision (siteOf .rejection) p := by
  obtain ⟨s, hs, -, hi, hused, -⟩ := exists_twoVersions
  have hback : NeverBack (siteOf .rejection) s := by
    intro a b c hab hbc hc heq
    obtain rfl | rfl : b = a ∨ b = c := by omega
    · exact heq
    · rfl
  exact ⟨s, hs.reachable, hback, run_of_revision_in_use hs.reachable hback hi⟩

/-- **No graph that was due.** The rejection lane never gives a thread a graph of an older build than
the one whose catalog was in place when it called, and gives it that one only if its catalog was not
stale then. -/
theorem run_not_due (hs : (graphs site).Reachable s) (hlane : site.lane i = .rejection)
    (hi : (s.calls i).phase = .running n q) {k : ℕ} (hk : (s.calls i).beside = some k) :
    k ≤ n ∧ (k = n → ∃ build, (s.caches .rejection).builds[n]? = some build ∧
      isStale site (s.calls i).began (some build.catalog) = false) := by
  have hinv : Inv site False s := reach_inv hs fun hfalse => hfalse.elim
  obtain ⟨⟨build, hbuild, -⟩, hdue, -, -⟩ := hinv.running hi
  obtain ⟨hle, hfresh⟩ := hdue hlane k hk
  refine ⟨hle, fun hkn => ⟨build, hlane ▸ hbuild, ?_⟩⟩
  exact hfresh hkn build (hkn ▸ hbuild)

theorem twoVersions_not_due : ∃ s : State Unit Bool,
    (graphs (siteOf .rejection)).Reachable s ∧ (s.calls true).beside = some 0 ∧
      0 ≤ 1 ∧ (0 = 1 → ∃ build, (s.caches .rejection).builds[1]? = some build ∧
        isStale (siteOf .rejection : Site Unit Bool) (s.calls true).began (some build.catalog) =
          false) := by
  obtain ⟨s, hs, -, hi, -, hbeside⟩ := exists_twoVersions
  exact ⟨s, hs.reachable, hbeside, run_not_due hs.reachable rfl hi hbeside⟩

/-! ## A build of the dead letters' lane that fails -/

/-- No snapshot is put in use. -/
def SamePrompts (site : Site S ι) (s : State S ι) (a : Action ι) : Prop :=
  ∀ t, step site s a = some t → t.used = s.used

/-- The catalog in place is complete and of the servers there are, and the revision in place is the
one in use; the graph may be of another build than the catalog. -/
structure InPlace (site : Site S ι) (s : State S ι) (n : ℕ) : Prop where
  agent : (s.caches .dlt).agent = some n
  catalog : ∃ catalog, s.agentCatalog .dlt = some catalog ∧ catalog.servers = site.servers ∧
    catalog.complete = true
  prompts : s.used ≠ [] ∧ s.agentPrompts site .dlt = s.revision site (s.used.length - 1)

/-- Nobody of the lane is about to build. -/
def Resting (site : Site S ι) (s : State S ι) : Prop :=
  ∀ i, site.lane i = .dlt → (s.calls i).phase.holds = true →
    (s.calls i).phase = .holding ∨ (s.calls i).phase = .rechecked

/-- The two caches differ in who has the lock, if in anything. -/
def SameButLock (cache cache' : Cache S ι) : Prop := ∃ lock, cache' = { cache with lock := lock }

omit [DecidableEq S] [DecidableEq ι] in
theorem SameButLock.refl (cache : Cache S ι) : SameButLock cache cache := ⟨cache.lock, rfl⟩

omit [DecidableEq ι] in
theorem InPlace.fresh (h : InPlace site s n) (now : ℕ) :
    isStale site now (s.agentCatalog .dlt) = false := by
  obtain ⟨catalog, hcatalog, hservers, hcomplete⟩ := h.catalog
  simp [hcatalog, isStale, hservers, hcomplete]

omit [DecidableEq S] [DecidableEq ι] in
theorem InPlace.mono (h : InPlace site s n) (hused : t.used = s.used)
    (hcache : SameButLock (s.caches .dlt) (t.caches .dlt)) : InPlace site t n := by
  obtain ⟨lock, hcache⟩ := hcache
  refine ⟨?_, ?_, ?_⟩
  · rw [hcache]
    exact h.agent
  · rw [State.agentCatalog, hcache]
    exact h.catalog
  · rw [State.agentPrompts, State.revision, hcache, hused]
    simp only [State.revision, hused]
    exact h.prompts

omit [DecidableEq S] [DecidableEq ι] in
theorem read_of_used (hused : s.used ≠ []) (answers : Text → Answer) :
    s.read site answers = some (s, s.used.length - 1) := by
  unfold State.read
  split
  · next hnone => exact absurd hnone hused
  · rfl

omit [DecidableEq ι] in
/-- A thread changes no other lane's cache and no other thread. -/
theorem advance_frame (hused : s.used ≠ []) {replies : Replies} {call call' : Call}
    (ha : advance site s i replies call = some (t, call')) :
    t.calls = s.calls ∧ ∀ ℓ, ℓ ≠ site.lane i → t.caches ℓ = s.caches ℓ := by
  cases hp : call.phase with
  | waiting =>
    simp only [advance, hp] at ha
    split at ha
    · cases ha
      exact ⟨rfl, fun ℓ hℓ => setCache_of_ne hℓ⟩
    · cases ha
  | rechecked =>
    simp only [advance, hp, read_of_used hused] at ha
    split at ha
    · obtain ⟨m, -, ha⟩ := Option.bind_eq_some_iff.1 ha
      cases ha
      exact ⟨rfl, fun ℓ hℓ => setCache_of_ne hℓ⟩
    · cases ha
      exact ⟨rfl, fun _ _ => rfl⟩
  | pinned q =>
    simp only [advance, hp, State.currentCatalog] at ha
    cases ha
    refine ⟨?_, fun ℓ hℓ => (setCache_of_ne hℓ).trans ?_⟩
    · show (State.currentCatalog site s replies).1.calls = s.calls
      unfold State.currentCatalog
      split <;> [split; skip] <;> rfl
    · show (State.currentCatalog site s replies).1.caches ℓ = s.caches ℓ
      unfold State.currentCatalog
      split <;> [split; skip] <;> rfl
  | promptsMatch m =>
    simp only [advance, hp] at ha
    obtain ⟨n, -, ha⟩ := Option.bind_eq_some_iff.1 ha
    cases ha
    exact ⟨rfl, fun _ _ => rfl⟩
  | building n | catalogSet n | promptsSet n =>
    simp only [advance, hp] at ha
    cases ha
    exact ⟨rfl, fun ℓ hℓ => setCache_of_ne hℓ⟩
  | agentSet n =>
    simp only [advance, hp] at ha
    split at ha
    · cases ha
      exact ⟨rfl, fun ℓ hℓ => setCache_of_ne hℓ⟩
    · cases ha
      exact ⟨rfl, fun _ _ => rfl⟩
  | idle | ended | raised => simp [advance, hp] at ha
  | refreshed | pinning | running n q =>
    simp only [advance, hp, read_of_used hused] at ha
    cases ha
    exact ⟨rfl, fun _ _ => rfl⟩
  | returned n =>
    simp only [advance, hp, read_of_used hused] at ha
    split at ha <;> cases ha <;> exact ⟨rfl, fun _ _ => rfl⟩
  | refreshing | checked | asked | agentSeen | holding =>
    simp only [advance, hp] at ha
    split at ha <;> cases ha <;> exact ⟨rfl, fun _ _ => rfl⟩
  | fetched snapshot | catalogFresh k =>
    simp only [advance, hp] at ha
    split at ha
    · first
      | cases ha; exact ⟨rfl, fun _ _ => rfl⟩
      | split at ha <;> cases ha <;> exact ⟨rfl, fun _ _ => rfl⟩
    · first
      | cases ha; exact ⟨rfl, fun _ _ => rfl⟩
      | split at ha <;> cases ha <;> exact ⟨rfl, fun _ _ => rfl⟩

omit [DecidableEq ι] in
/-- A thread of the lane finds the graph in place, and so builds none. -/
theorem InPlace.found (h : InPlace site s n) (hlane : site.lane i = .dlt)
    {replies : Replies} {call call' : Call}
    (hresting : call.phase.holds = true → call.phase = .holding ∨ call.phase = .rechecked)
    (hsame : t.used = s.used) (ha : advance site s i replies call = some (t, call')) :
    SameButLock (s.caches .dlt) (t.caches .dlt) ∧
      (call'.phase.holds = true → call'.phase = .holding ∨ call'.phase = .rechecked) := by
  have hused := h.prompts.1
  cases hp : call.phase with
  | waiting =>
    simp only [advance, hp, hlane] at ha
    split at ha
    · cases ha
      exact ⟨⟨some i, setCache_self⟩, fun _ => .inl rfl⟩
    · cases ha
  | holding =>
    simp only [advance, hp, hlane, h.agent, h.fresh, Option.isSome_some, Bool.not_false,
      Bool.and_self, if_true] at ha
    cases ha
    exact ⟨.refl _, fun _ => .inr rfl⟩
  | rechecked =>
    simp only [advance, hp, hlane, read_of_used hused, h.prompts.2, if_true] at ha
    obtain ⟨m, -, ha⟩ := Option.bind_eq_some_iff.1 ha
    cases ha
    exact ⟨⟨none, setCache_self⟩, fun hholds => absurd hholds Bool.false_ne_true⟩
  | pinning | pinned q | building m | agentSet m | catalogSet m | promptsSet m =>
    simp [hp, Phase.holds] at hresting
  | checked snapshot =>
    simp only [advance, hp] at ha
    split at ha
    · cases ha
      exact ⟨.refl _, fun hholds => absurd hholds Bool.false_ne_true⟩
    · cases ha
      simp [State.use] at hsame
  | promptsMatch m =>
    simp only [advance, hp, hlane, h.agent, Option.bind_some] at ha
    cases ha
    exact ⟨.refl _, fun hholds => absurd hholds Bool.false_ne_true⟩
  | idle | ended | raised => simp [advance, hp] at ha
  | refreshed | running m q =>
    simp only [advance, hp, read_of_used hused] at ha
    cases ha
    exact ⟨.refl _, fun hholds => absurd hholds Bool.false_ne_true⟩
  | returned m =>
    simp only [advance, hp, read_of_used hused] at ha
    split at ha <;> cases ha <;>
      exact ⟨.refl _, fun hholds => absurd hholds Bool.false_ne_true⟩
  | refreshing | asked | agentSeen =>
    simp only [advance, hp] at ha
    split at ha <;> cases ha <;>
      exact ⟨.refl _, fun hholds => absurd hholds Bool.false_ne_true⟩
  | fetched snapshot | catalogFresh k =>
    simp only [advance, hp] at ha
    split at ha
    · first
      | cases ha; exact ⟨.refl _, fun hholds => absurd hholds Bool.false_ne_true⟩
      | split at ha <;> cases ha <;>
          exact ⟨.refl _, fun hholds => absurd hholds Bool.false_ne_true⟩
    · first
      | cases ha; exact ⟨.refl _, fun hholds => absurd hholds Bool.false_ne_true⟩
      | split at ha <;> cases ha <;>
          exact ⟨.refl _, fun hholds => absurd hholds Bool.false_ne_true⟩

theorem InPlace.step (h : InPlace site s n) (hresting : Resting site s) {a : Action ι}
    (hsame : SamePrompts site s a) (hstep : step site s a = some t) :
    SameButLock (s.caches .dlt) (t.caches .dlt) ∧ InPlace site t n ∧ Resting site t := by
  have hused := hsame t hstep
  cases a with
  | activate answers =>
    obtain ⟨snapshot, -, rfl⟩ := Option.map_eq_some_iff.1 hstep
    simp [State.use] at hused
  | tick d =>
    cases hstep
    exact ⟨.refl _, h.mono rfl (.refl _), hresting⟩
  | call i =>
    simp only [Prompts.step] at hstep
    split at hstep
    · cases hstep
      refine ⟨.refl _, h.mono rfl (.refl _), fun j hj hholds => ?_⟩
      by_cases hji : j = i
      · subst hji
        rw [setCall_self] at hholds
        cases hholds
      · rw [setCall_of_ne hji] at hholds ⊢
        exact hresting j hj hholds
    · cases hstep
  | next i replies =>
    obtain ⟨⟨s', call⟩, ha, rfl⟩ := Option.map_eq_some_iff.1 hstep
    have hused : s'.used = s.used := hused
    obtain ⟨hcalls, hothers⟩ := advance_frame h.prompts.1 ha
    have hrest : ∀ j, j ≠ i → site.lane j = .dlt →
        ((s'.setCall i call).calls j).phase.holds = true →
        ((s'.setCall i call).calls j).phase = .holding ∨
          ((s'.setCall i call).calls j).phase = .rechecked := by
      intro j hji hj hholds
      rw [setCall_of_ne hji, hcalls] at hholds ⊢
      exact hresting j hj hholds
    by_cases hlane : site.lane i = .dlt
    · obtain ⟨hcache, hholds'⟩ := h.found hlane (hresting i hlane) hused ha
      refine ⟨hcache, h.mono hused hcache, fun j hj hholds => ?_⟩
      by_cases hji : j = i
      · subst hji
        rw [setCall_self] at hholds ⊢
        exact hholds' hholds
      · exact hrest j hji hj hholds
    · have hcache : SameButLock (s.caches .dlt) ((s'.setCall i call).caches .dlt) := by
        show SameButLock (s.caches .dlt) (s'.caches .dlt)
        rw [hothers .dlt fun heq => hlane heq.symm]
        exact .refl _
      refine ⟨hcache, h.mono hused hcache, fun j hj hholds => ?_⟩
      have hji : j ≠ i := fun heq => hlane (heq ▸ hj)
      exact hrest j hji hj hholds
  | fail i =>
    simp only [Prompts.step] at hstep
    split at hstep
    · next m hp =>
      cases hstep
      by_cases hlane : site.lane i = .dlt
      · have := hresting i hlane (by rw [hp]; rfl)
        simp [hp] at this
      · have hcache : SameButLock (s.caches .dlt)
            ((s.setCache (site.lane i) { s.caches (site.lane i) with lock := none }).caches
              .dlt) := by
          rw [setCache_of_ne fun heq => hlane heq.symm]
          exact .refl _
        refine ⟨hcache, h.mono rfl hcache, fun j hj hholds => ?_⟩
        have hji : j ≠ i := fun heq => hlane (heq ▸ hj)
        rw [setCall_of_ne hji] at hholds ⊢
        exact hresting j hj hholds
    · cases hstep

/-- **A failed build is not made good.** Once the dead letters' lane is at rest with a complete
catalog in place beside the graph of another build, that graph is the lane's, and no other is built,
in every run in which no new prompts are put in use. -/
theorem stays_in_place (h : InPlace site s n) (hresting : Resting site s)
    (hlater : (graphs site).Later (SamePrompts site) s t) :
    (t.caches .dlt).agent = some n ∧ (t.caches .dlt).builds = (s.caches .dlt).builds := by
  have hkept : (t.caches .dlt).builds = (s.caches .dlt).builds ∧ InPlace site t n ∧
      Resting site t := by
    apply hlater.relate (R := fun s t => (t.caches .dlt).builds = (s.caches .dlt).builds ∧
      InPlace site t n ∧ Resting site t)
    · exact ⟨rfl, h, hresting⟩
    · intro t a u _ ⟨hbuilds, hplace, hrest⟩ hsame hstep
      obtain ⟨⟨lock, hcache⟩, hplace', hrest'⟩ := hplace.step hrest hsame hstep
      refine ⟨?_, hplace', hrest'⟩
      rw [hcache]
      exact hbuilds
  exact ⟨hkept.2.1.agent, hkept.1⟩

inductive Thread where
  | first
  | second
  | third
deriving DecidableEq

/-- A thread builds a graph while a tool server is down; when it is up, another lists the tools and
then fails. -/
def failing : List (Action Thread) :=
  .call .first :: List.replicate 14 (.next .first (published 1 ["docs".toList])) ++
    .tick 20 :: .call .second :: List.replicate 9 (.next .second (published 1 [])) ++
    [.fail .second]

def failedBuild : State Unit Thread :=
  ((graphs (siteOf .dlt)).run noneCalled failing).get (by decide)

theorem failedBuild_reachable : (graphs (siteOf .dlt)).Reachable failedBuild :=
  (graphs (siteOf .dlt)).reach_runWhere (c := fun _ _ => true) (fun _ _ _ => trivial)
    (.start noneCalled_start) (Option.some_get _).symm

def samePrompts (s : State Unit Thread) (a : Action Thread) : Bool :=
  (step (siteOf .dlt) s a).all fun t => t.used = s.used

/-- A third thread is given the graph that was built without the tools of the server. -/
theorem failedBuild_stays : ∃ t : State Unit Thread,
    (graphs (siteOf .dlt)).Reachable failedBuild ∧
      (failedBuild.caches .dlt).agentCatalog = some 1 ∧
      (graphs (siteOf .dlt)).Later (SamePrompts (siteOf .dlt)) failedBuild t ∧
      (t.calls .third).phase = .running 0 0 ∧ (t.caches .dlt).agent = some 0 ∧
      (t.caches .dlt).builds = (failedBuild.caches .dlt).builds := by
  obtain ⟨t, ht, hp⟩ := (graphs (siteOf .dlt)).exists_later_runWhere (c := samePrompts)
    (C := SamePrompts (siteOf .dlt)) (fun s a h t ht => by
      simpa [samePrompts, ht] using h)
    (.call .third :: List.replicate 8 (.next .third (published 1 [])))
    (fun t => (t.calls .third).phase = .running 0 0) (s := failedBuild) (by decide)
  have hplace : InPlace (siteOf .dlt) failedBuild 0 :=
    ⟨by decide, ⟨⟨[()], [], [], 20⟩, by rfl, rfl, rfl⟩, by decide, by decide⟩
  have hresting : Resting (siteOf .dlt) failedBuild := by
    intro i _ hholds
    have hnone : (failedBuild.calls i).phase.holds = false := by cases i <;> rfl
    rw [hnone] at hholds
    cases hholds
  exact ⟨t, failedBuild_reachable, by decide, ht, of_decide_eq_true hp,
    stays_in_place hplace hresting ht⟩

end ResidentCrm.Prompts
