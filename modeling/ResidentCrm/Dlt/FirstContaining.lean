import ResidentCrm.Dlt.FixDeployed
import Mathlib.Data.List.Chain
import Mathlib.Data.List.TakeWhile

/-!
# The first version that contains a commit

On one branch (`Branch`, oldest commit first) the first version to contain a commit is the one the
version file holds at the first commit, from that commit on, that touched the file. The walk of
`_first_containing_version` looks for it by timestamps: it asks whether the commit itself touched
the file, by the basename, and else takes the oldest of the touching commits that are kept at or
after the commit's instant.

`Anchored` is when that finds the right commit. It is exact (`firstContaining_sound_iff`): on any
other history there are versions, changing only where the version file was touched, with which the
walk answers wrongly.
-/

namespace ResidentCrm.Dlt

structure Revision where
  commit : Commit
  changed : List Text
deriving DecidableEq, Repr

/-- A linear branch, oldest commit first, whose committer timestamps never decrease. -/
structure Branch where
  revisions : List Revision
  ids_nodup : (revisions.map (·.commit.id)).Nodup
  ids_ne_nil : ∀ x ∈ revisions, x.commit.id ≠ []
  paths_ne_nil : ∀ x ∈ revisions, [] ∉ x.changed
  ordered : revisions.Pairwise fun x y =>
    ∀ s ∈ x.commit.timestampMs, ∀ t ∈ y.commit.timestampMs, s ≤ t

/-- The repository answers for the branch, and `version` is what is readable at each commit. -/
structure Serves (cfg : Config) (o : Oracle) (repo : Repo) (b : Branch)
    (version : Text → Option Text) : Prop where
  changes : ∀ x ∈ b.revisions, o.changes repo x.commit.id = some x.changed
  commits : ∀ path, o.commits repo path =
    some ((b.revisions.filter (path ∈ ·.changed)).reverse.map Revision.commit)
  reads : ∀ x ∈ b.revisions, versionAt cfg o repo x.commit.id = version x.commit.id
  /-- What the version file holds changes only where it is touched. -/
  steady : b.revisions.IsChain fun x y =>
    repo.versionFile ∈ y.changed ∨ version y.commit.id = version x.commit.id

/-- The first revision of a list that touched the version file. -/
def firstTouch (repo : Repo) (revisions : List Revision) : Option Revision :=
  revisions.find? fun x => repo.versionFile ∈ x.changed

/-- A version answered for the revision `r`, with `after` what followed it, is what the version
file held at the first revision from `r` on that touched it. -/
def ContainingSound (cfg : Config) (o : Oracle) (repo : Repo) (r : Revision)
    (after : List Revision) (version : Text → Option Text) : Prop :=
  ∀ text, (firstContainingVersion cfg o repo r.commit).1 = .version text →
    ∃ e, firstTouch repo (r :: after) = some e ∧ version e.commit.id = some text

/-- The walk finds the right commit: a revision that touched some file of the version file's name
touched the version file itself, and for one that did not no earlier touch of the version file is
kept as late enough. -/
def Anchored (repo : Repo) (before : List Revision) (r : Revision) : Prop :=
  if touchesVersionFile r.changed repo.versionFile then repo.versionFile ∈ r.changed
  else ∀ x ∈ before, repo.versionFile ∈ x.changed → keptSince r.commit.timestampMs x.commit = false

/-! ## An anchored walk is right -/

section

variable {cfg : Config} {o : Oracle} {repo : Repo} {b : Branch} {before after : List Revision}
  {r : Revision} {version : Text → Option Text}

/-- The touches of the version file that are kept, oldest first, as revisions. -/
def keptTouches (repo : Repo) (r : Revision) (revisions : List Revision) : List Revision :=
  (revisions.filter (repo.versionFile ∈ ·.changed)).filter
    fun x => keptSince r.commit.timestampMs x.commit

/-- From `r` on nothing is filtered out by its timestamp. -/
theorem kept_from (hb : b.revisions = before ++ r :: after) :
    ∀ x ∈ r :: after, keptSince r.commit.timestampMs x.commit = true := by
  intro x hx
  have hord := b.ordered
  rw [hb, List.pairwise_append, List.pairwise_cons] at hord
  unfold keptSince
  split
  · next s t hs ht =>
    rcases List.mem_cons.1 hx with rfl | hx
    · rw [hs, Option.some.injEq] at ht
      simp [ht]
    · simpa using hord.2.1.1 x hx s hs t ht
  · rfl

theorem keptTouches_from (hb : b.revisions = before ++ r :: after) :
    (keptTouches repo r (r :: after)).head? = firstTouch repo (r :: after) := by
  unfold keptTouches firstTouch
  rw [List.filter_eq_self.2, List.head?_filter]
  intro x hx
  exact kept_from hb x (List.mem_of_mem_filter hx)

theorem bumps_eq (hs : Serves cfg o repo b version) (hv : repo.versionFile ≠ []) :
    (commitsTouching o repo repo.versionFile r.commit.timestampMs) =
      some ((keptTouches repo r b.revisions).reverse.map Revision.commit) := by
  unfold commitsTouching keptTouches
  rw [if_neg hv, hs.commits, Option.map_some, List.filter_map, List.filter_reverse]
  rfl

theorem oldest_bump (hs : Serves cfg o repo b version) (hv : repo.versionFile ≠ []) :
    ∃ bumps, commitsTouching o repo repo.versionFile r.commit.timestampMs = some bumps ∧
      bumps.getLast? = (keptTouches repo r b.revisions).head?.map Revision.commit := by
  refine ⟨_, bumps_eq hs hv, ?_⟩
  rw [List.getLast?_map, List.getLast?_reverse]

theorem keptTouches_append (xs ys : List Revision) :
    keptTouches repo r (xs ++ ys) = keptTouches repo r xs ++ keptTouches repo r ys := by
  simp only [keptTouches, List.filter_append]

/-- **An anchored walk answers with the version at the first touch.** -/
theorem ContainingSound.of_anchored (hs : Serves cfg o repo b version)
    (hb : b.revisions = before ++ r :: after) (ha : Anchored repo before r) :
    ContainingSound cfg o repo r after version := by
  have hmem : ∀ x ∈ r :: after, x ∈ b.revisions :=
    fun x hx => hb ▸ List.mem_append_right before hx
  have hr := hmem r List.mem_cons_self
  intro text ht
  unfold firstContainingVersion changedPaths at ht
  rw [if_neg (b.ids_ne_nil r hr), hs.changes r hr] at ht
  unfold Anchored at ha
  cases htouch : touchesVersionFile r.changed repo.versionFile with
  | true =>
    simp only [htouch, if_true] at ht ha
    refine ⟨r, by simp [firstTouch, ha], ?_⟩
    rw [← hs.reads r hr]
    split at ht
    · cases ht
    · next hv =>
      cases ht
      exact hv
  | false =>
    simp only [htouch, Bool.false_eq_true, if_false] at ht ha
    by_cases hv : repo.versionFile = []
    · rw [commitsTouching, if_pos hv] at ht
      cases ht
    have hnone : keptTouches repo r before = [] := by
      refine List.filter_eq_nil_iff.2 fun x hx => ?_
      obtain ⟨hx, hxv⟩ := List.mem_filter.1 hx
      simp [ha x hx (by simpa using hxv)]
    obtain ⟨bumps, hbumps, hlast⟩ := oldest_bump (r := r) hs hv
    rw [hb, keptTouches_append, hnone, List.nil_append, keptTouches_from hb] at hlast
    simp only [hbumps, hlast] at ht
    cases hfirst : firstTouch repo (r :: after) with
    | none =>
      rw [hfirst] at ht
      cases ht
    | some e =>
      rw [hfirst] at ht
      refine ⟨e, rfl, ?_⟩
      rw [← hs.reads e (hmem e (List.mem_of_find?_eq_some hfirst))]
      simp only [Option.map_some] at ht
      split at ht
      · cases ht
      · next hv =>
        cases ht
        exact hv

end

/-! ## Versions that break a walk that is not anchored -/

section

variable (repo : Repo) (b : Branch) (r : Revision) (after : List Revision)

def fromTouch : List Revision := (r :: after).dropWhile fun x => repo.versionFile ∉ x.changed

/-- Version 1 until the version file is touched, and 2 from then on. -/
def oneThenTwo (id : Text) : Option Text :=
  if id ∈ (fromTouch repo r after).map (·.commit.id) then some "2".toList else some "1".toList

/-- A pom that declares a version, and its text. -/
def pomOf (version : Text) : Pom.Element :=
  .node "project".toList none [.node "version".toList (some version) []]

def pomText (version : Text) : Text :=
  "<project><version>".toList ++ version ++ "</version></project>".toList

/-- A file of this name that declares a version. -/
def versionText (name version : Text) : Text :=
  if ".json".toList.isSuffixOf name then "\x7b\"version\":\"".toList ++ version ++ ['"', '}']
  else if ".properties".toList.isSuffixOf name || ".props".toList.isSuffixOf name then
    "version=".toList ++ version
  else pomText version

/-- A configuration whose parser reads the poms of both versions. -/
def pomsConfig : Config :=
  { svcConfig with
    fromstring := fun text =>
      (["1".toList, "2".toList].find? (pomText · = text)).map pomOf }

/-- A repository that serves the branch with these versions. -/
def servedOracle : Oracle where
  commits _ path := some ((b.revisions.filter (path ∈ ·.changed)).reverse.map Revision.commit)
  changes _ id := (b.revisions.find? (·.commit.id = id)).map Revision.changed
  file _ _ ref := (oneThenTwo repo r after ref).map (versionText repo.versionFile)
  pages _ := []

end

section

variable {repo : Repo} {b : Branch} {before after : List Revision} {r : Revision}

/-- Both versions are read out of the version file. -/
def ReadsBoth (cfg : Config) (name : Text) : Prop :=
  cfg.pattern = none ∧
    ∀ version ∈ ["1".toList, "2".toList], cfg.declaredIn name (versionText name version) = some version

theorem readsBoth_svcConfig : ReadsBoth svcConfig svc.versionFile := ⟨rfl, by decide⟩

theorem readsBoth_pomsConfig (name : Text) : ReadsBoth pomsConfig name := by
  refine ⟨rfl, fun version hversion => ?_⟩
  unfold Config.declaredIn versionText
  split
  · revert version
    decide
  · split
    · revert version
      decide
    · revert version
      decide

theorem versionAt_served {cfg : Config} (hcfg : ReadsBoth cfg repo.versionFile)
    (hv : repo.versionFile ≠ []) {id : Text} (hid : id ≠ []) :
    versionAt cfg (servedOracle repo b r after) repo id = oneThenTwo repo r after id := by
  have hfile : fileAt (servedOracle repo b r after) repo repo.versionFile id =
      (oneThenTwo repo r after id).map (versionText repo.versionFile) := by
    rw [fileAt, if_neg hv, orElse, if_neg hid]
    rfl
  obtain ⟨hpattern, hreads⟩ := hcfg
  unfold versionAt
  rw [hfile, hpattern]
  unfold oneThenTwo
  split
  · rw [Option.map_some, Option.bind_eq_bind, Option.bind_some, hreads _ (by decide)]
    rfl
  · rw [Option.map_some, Option.bind_eq_bind, Option.bind_some, hreads _ (by decide)]
    rfl

theorem find?_id {l : List Revision} (h : (l.map (·.commit.id)).Nodup) {x : Revision}
    (hx : x ∈ l) : l.find? (·.commit.id = x.commit.id) = some x := by
  induction l with
  | nil => cases hx
  | cons y l ih =>
    rw [List.map_cons, List.nodup_cons] at h
    rcases List.mem_cons.1 hx with rfl | hx
    · simp
    · have hne : y.commit.id ≠ x.commit.id := fun hid => h.1 (hid ▸ List.mem_map_of_mem hx)
      rw [List.find?_cons_of_neg (by simpa using hne)]
      exact ih h.2 hx

theorem oneThenTwo_of_mem {x : Revision} (hx : x ∈ fromTouch repo r after) :
    oneThenTwo repo r after x.commit.id = some "2".toList := if_pos (List.mem_map_of_mem hx)

def beforeTouch (repo : Repo) (before : List Revision) (r : Revision) (after : List Revision) :
    List Revision :=
  before ++ (r :: after).takeWhile fun x => repo.versionFile ∉ x.changed

theorem beforeTouch_append_fromTouch (repo : Repo) (hb : b.revisions = before ++ r :: after) :
    beforeTouch repo before r after ++ fromTouch repo r after = b.revisions := by
  rw [hb, beforeTouch, fromTouch, List.append_assoc, List.takeWhile_append_dropWhile]

theorem oneThenTwo_of_mem_before (hb : b.revisions = before ++ r :: after) {x : Revision}
    (hx : x ∈ beforeTouch repo before r after) :
    oneThenTwo repo r after x.commit.id = some "1".toList := by
  refine if_neg fun hmem => ?_
  have hnodup := b.ids_nodup
  rw [← beforeTouch_append_fromTouch repo hb, List.map_append] at hnodup
  exact (List.nodup_append.1 hnodup).2.2 _ (List.mem_map_of_mem hx) _ hmem rfl

theorem touched_of_head {x : Revision} (hx : x ∈ (fromTouch repo r after).head?) :
    repo.versionFile ∈ x.changed := by
  have := List.head?_dropWhile_not (fun x => repo.versionFile ∉ x.changed) (r :: after)
  rw [Option.mem_def, fromTouch] at hx
  rw [hx] at this
  simpa using this

theorem serves_served {cfg : Config} (hcfg : ReadsBoth cfg repo.versionFile)
    (hv : repo.versionFile ≠ []) (hb : b.revisions = before ++ r :: after) :
    Serves cfg (servedOracle repo b r after) repo b (oneThenTwo repo r after) where
  changes x hx := congrArg (Option.map Revision.changed) (find?_id b.ids_nodup hx)
  commits path := rfl
  reads x hx := versionAt_served hcfg hv (b.ids_ne_nil x hx)
  steady := by
    rw [← beforeTouch_append_fromTouch repo hb]
    refine List.IsChain.append ?_ ?_ ?_
    · refine List.Pairwise.isChain (List.pairwise_of_forall_mem_list fun x hx y hy => .inr ?_)
      rw [oneThenTwo_of_mem_before hb hx, oneThenTwo_of_mem_before hb hy]
    · refine List.Pairwise.isChain (List.pairwise_of_forall_mem_list fun x hx y hy => .inr ?_)
      rw [oneThenTwo_of_mem hx, oneThenTwo_of_mem hy]
    · intro x _ y hy
      exact .inl (touched_of_head hy)

theorem firstTouch_eq : firstTouch repo (r :: after) = (fromTouch repo r after).head? := by
  unfold firstTouch fromTouch
  rw [List.find?_eq_head?_dropWhile_not]
  simp only [decide_not]

/-- A version 1 answered contradicts soundness: what is touched from `r` on holds version 2. -/
theorem not_sound_of_one {cfg : Config} {o : Oracle}
    (h : (firstContainingVersion cfg o repo r.commit).1 = .version "1".toList) :
    ¬ ContainingSound cfg o repo r after (oneThenTwo repo r after) := by
  intro hs
  obtain ⟨e, he, hv⟩ := hs _ h
  have hmem : e ∈ fromTouch repo r after := by
    rw [firstTouch_eq] at he
    exact List.mem_of_head? he
  rw [oneThenTwo_of_mem hmem] at hv
  exact absurd hv (by decide)

/-- **A walk that is not anchored answers wrongly** for some versions of the branch. -/
theorem Anchored.of_sound (hb : b.revisions = before ++ r :: after)
    (h : ∀ cfg o version, Serves cfg o repo b version →
      ContainingSound cfg o repo r after version) : Anchored repo before r := by
  by_contra hn
  have hreads := readsBoth_pomsConfig repo.versionFile
  have hr : r ∈ b.revisions := hb ▸ List.mem_append_right _ List.mem_cons_self
  have hchanged : changedPaths (servedOracle repo b r after) repo r.commit.id = some r.changed := by
    rw [changedPaths, if_neg (b.ids_ne_nil r hr)]
    exact congrArg (Option.map Revision.changed) (find?_id b.ids_nodup hr)
  unfold Anchored at hn
  cases htouch : touchesVersionFile r.changed repo.versionFile with
  | true =>
    -- the version is read at `r`, before the version file is touched
    rw [if_pos htouch] at hn
    have hv : repo.versionFile ≠ [] := by
      intro hv
      rw [hv] at htouch
      cases htouch
    have hone : oneThenTwo repo r after r.commit.id = some "1".toList := by
      refine oneThenTwo_of_mem_before hb (List.mem_append_right _ ?_)
      simp [List.takeWhile, hn]
    refine not_sound_of_one ?_ (h _ _ _ (serves_served hreads hv hb))
    unfold firstContainingVersion
    simp only [hchanged, htouch, if_true, versionAt_served hreads hv
      (b.ids_ne_nil r hr), hone]
  | false =>
    -- the oldest touch that is kept lies before `r`
    rw [htouch] at hn
    simp only [Bool.false_eq_true, if_false, not_forall, Bool.not_eq_false] at hn
    obtain ⟨x, hx, hxv, hkept⟩ := hn
    have hv : repo.versionFile ≠ [] := by
      intro hv
      exact b.paths_ne_nil x (hb ▸ List.mem_append_left _ hx) (hv ▸ hxv)
    have hs := serves_served hreads hv hb
    obtain ⟨bumps, hbumps, hlast⟩ := oldest_bump (r := r) hs hv
    have hxk : x ∈ keptTouches repo r before :=
      List.mem_filter.2 ⟨List.mem_filter.2 ⟨hx, by simpa using hxv⟩, hkept⟩
    obtain ⟨y, ys, hy⟩ := List.exists_cons_of_ne_nil (List.ne_nil_of_mem hxk)
    have hyk : y ∈ keptTouches repo r before := hy ▸ List.mem_cons_self
    have hybefore : y ∈ before := List.mem_of_mem_filter (List.mem_of_mem_filter hyk)
    rw [hb, keptTouches_append, hy, List.cons_append, List.head?_cons, Option.map_some] at hlast
    have hone : oneThenTwo repo r after y.commit.id = some "1".toList :=
      oneThenTwo_of_mem_before hb (List.mem_append_left _ hybefore)
    have hyid := b.ids_ne_nil y (hb ▸ List.mem_append_left _ hybefore)
    refine not_sound_of_one ?_ (h _ _ _ hs)
    unfold firstContainingVersion
    simp only [hchanged, htouch, Bool.false_eq_true, if_false, hbumps, hlast,
      versionAt_served hreads hv hyid, hone]

/-- **The walk is right about a commit exactly where it is anchored**: whatever versions the branch
holds, a version answered is the one the version file held at the first commit, from that commit
on, that touched it. -/
theorem firstContaining_sound_iff (hb : b.revisions = before ++ r :: after) :
    (∀ cfg o version, Serves cfg o repo b version →
      ContainingSound cfg o repo r after version) ↔ Anchored repo before r :=
  ⟨Anchored.of_sound hb, fun ha _ _ _ hs => .of_anchored hs hb ha⟩

end

/-! ## Two commits of one instant -/

def revision (id : String) (timestampMs : ℤ) (path : Text) : Revision where
  commit := { id := id.toList, timestampMs := some timestampMs }
  changed := [path]

/-- The version is bumped, the code is changed in the same instant, and the version is bumped
again. -/
def sameInstant : Branch where
  revisions := [revision "old" 100 svc.versionFile, revision "fix" 100 pathOfB,
    revision "new" 200 svc.versionFile]
  ids_nodup := by decide
  ids_ne_nil := by decide
  paths_ne_nil := by decide
  ordered := by decide

theorem firstContaining_sound_iff_sameInstant :
    (∀ cfg o version, Serves cfg o svc sameInstant version →
      ContainingSound cfg o svc (revision "fix" 100 pathOfB)
        [revision "new" 200 svc.versionFile] version) ↔
      Anchored svc [revision "old" 100 svc.versionFile] (revision "fix" 100 pathOfB) :=
  firstContaining_sound_iff (b := sameInstant) rfl

/-- The version read for the change is that of the bump before it. -/
theorem version_before_the_fix :
    Serves svcConfig (servedOracle svc sameInstant (revision "fix" 100 pathOfB)
        [revision "new" 200 svc.versionFile]) svc sameInstant
        (oneThenTwo svc (revision "fix" 100 pathOfB) [revision "new" 200 svc.versionFile]) ∧
      ¬ ContainingSound svcConfig (servedOracle svc sameInstant (revision "fix" 100 pathOfB)
        [revision "new" 200 svc.versionFile]) svc (revision "fix" 100 pathOfB)
        [revision "new" 200 svc.versionFile]
        (oneThenTwo svc (revision "fix" 100 pathOfB) [revision "new" 200 svc.versionFile]) := by
  have hb : sameInstant.revisions = [revision "old" 100 svc.versionFile] ++
      revision "fix" 100 pathOfB :: [revision "new" 200 svc.versionFile] := rfl
  exact ⟨serves_served readsBoth_svcConfig (by decide) hb, not_sound_of_one (by decide)⟩

end ResidentCrm.Dlt
